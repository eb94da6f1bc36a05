import TxnPath.Proofs.Txn.Acts
import TxnPath.Proofs.Txn.EarlyResults

/-!
# `TxnPath.Proofs.Txn.Waking`: when an error wakes whoever waits

An error opens the latch of the round, and a round that starts while an error waits to be
reported arms an open one. But an error that has been reported waits no more, and a
transaction that has failed takes in no results: a round that starts then with results
outstanding arms a latch that nobody will ever count down (`Relapses`).

A transaction is `Awake` if its latch is open or absent once it has failed. `Awake.step`
says that this is the only act that puts it to sleep, and `errors_wake_iff` that it stays
awake along a run exactly when no round is started that way. `second_round_sleeps` is a
run of one batch after a reported error, the wait of which never ends.
-/

set_option autoImplicit false

namespace TxnPath.Transaction

variable {t t' u : Transaction} {act : Act} {acts : List Act}

/-- Nothing is waited for in a transaction that has failed. -/
def Awake (t : Transaction) : Prop :=
  t.hasFailed = true → t.round.latch.all Latch.isOpen = true

/-- The round is started at the base partition with results outstanding, after the error of
the transaction has been reported. -/
structure Relapses (t : Transaction) (act : Act) : Prop where
  start : act = .booked (.startRound t.admission.base)
  failed : t.hasFailed = true
  reported : t.pendingError = none
  outstanding : t.round.received + t.round.queued.length < t.round.expected

/-! ### Waiting with nothing outstanding -/

/-- Where nothing is waited for, a wait ends at once: with the error to report if there is
one. -/
theorem wait_of_drained (h : t.round.latch.all Latch.isOpen = true) (timeout : Option Nat) :
    (t.wait timeout).2 = t.pendingError.elim .ready .failed := by
  unfold wait takeError
  cases t.pendingError with
  | some e => rfl
  | none =>
    cases hlatch : t.round.latch with
    | none => simp only [hlatch, Option.elim]
    | some latch =>
      rw [hlatch] at h
      have hready : latch.wait timeout = .ready := by
        rw [Latch.wait, if_pos (show latch.isOpen = true from h)]
      simp only [hlatch, hready, Option.elim]

/-- Where something is waited for and there is no error to report, a wait without a bound
never ends. -/
theorem wait_of_armed {latch : Latch} (hpending : t.pendingError = none)
    (hlatch : t.round.latch = some latch) (harmed : latch.isOpen = false) :
    (t.wait none).2 = .never := by
  have hnever : latch.wait none = .never := by
    rw [Latch.wait, if_neg (by rw [harmed]; exact Bool.false_ne_true)]
    rfl
  unfold wait takeError
  rw [hpending]
  simp only [hlatch, hnever]

/-! ### One act -/

/-- The latch decides, once the transaction has failed. -/
theorem Awake.of_latch (h : t.Awake) (hfailed : t'.hasFailed = t.hasFailed)
    (hlatch : t'.round.latch = t.round.latch ∨ t'.round.latch = none) : t'.Awake := by
  intro hfailed'
  rcases hlatch with hsame | hnone
  · rw [hsame]
    exact h (hfailed ▸ hfailed')
  · rw [hnone]
    rfl

/-- Beginning a round puts the latch away at the base partition, and leaves it elsewhere. -/
theorem Awake.initRound {p token : Nat} (h : t.Awake) (hok : t.initRound p token = .ok t') :
    t'.Awake := by
  obtain ⟨_, _, _, _, ⟨_, rfl⟩ | ⟨_, rfl⟩⟩ := initRound_ok hok
  · exact h.of_latch rfl (.inl rfl)
  · exact h.of_latch rfl (.inr rfl)

/-- Finishing a round puts the latch away. -/
theorem Awake.finishRound {p : Nat} (h : t.Awake) (hok : t.finishRound p = .ok t') :
    t'.Awake := by
  obtain ⟨_, _, _, ⟨_, rfl⟩ | ⟨_, rfl⟩⟩ := finishRound_ok hok
  · exact h.of_latch rfl (.inl rfl)
  · exact h.of_latch rfl (.inr rfl)

/-- Adding a task arms no latch. -/
theorem Awake.addTask {task : Task} {isBlocked : Bool} (h : t.Awake)
    (hok : t.addTask task = .ok (t', isBlocked)) : t'.Awake := by
  obtain ⟨_, _, r, _, hr, rfl⟩ := addTask_ok hok
  have hlatch : r.latch = t.round.latch := by rw [(Round.addTask_ok hr).1]
  exact h.of_latch rfl (.inl hlatch)

/-- Taking inputs arms no latch. -/
theorem Awake.takeInputs {task : Task} {taken : List (DependencyId × List ResultTable)}
    (h : t.Awake) (hok : t.takeInputs task = .ok (t', taken)) : t'.Awake := by
  obtain ⟨r, hr, rfl⟩ := takeInputs_ok hok
  have hlatch : r.latch = t.round.latch := by rw [(Round.takeInputs_ok hr).1]
  exact h.of_latch rfl (.inl hlatch)

/-- A transaction that has failed takes no results, so that none counts its latch down. -/
theorem Awake.addResult {x : Delivery} (h : t.Awake) (hok : t.addResult x = .ok t') :
    t'.Awake := by
  rcases addResult_ok hok with ⟨_, rfl⟩ | ⟨hopen, _⟩
  · exact h
  · -- The result was taken in, so no error is on record, before or after.
    intro hfailed
    have hsame : t'.hasFailed = t.hasFailed :=
      congrArg Option.isSome (passes_addResult hok).abortReason
    rw [← hsame, hfailed, Bool.or_true] at hopen
    cases hopen

/-- An error opens the latch that is there. -/
theorem Awake.fail (h : t.Awake) (e : TxnError) : (t.fail e).Awake := by
  cases hreason : t.abortReason with
  | some reason =>
    rw [fail_of_hasFailed (Option.isSome_iff_exists.mpr ⟨_, hreason⟩)]
    exact h
  | none =>
    rw [fail_of_open hreason]
    intro _
    show (t.round.latch.map Latch.releaseAll).all Latch.isOpen = true
    cases t.round.latch <;> rfl

/-- Waiting opens the latch if it times out, and leaves it otherwise. -/
theorem Awake.wait (h : t.Awake) (timeout : Option Nat) : (t.wait timeout).1.Awake := by
  have htaken : t.takeError.1.Awake := h.of_latch rfl (.inl rfl)
  rcases wait_eq t timeout with hsame | ⟨e, htimeout, _⟩
  · rw [hsame]
    exact htaken
  · rw [htimeout]
    exact (htaken.fail e).of_latch rfl (.inl rfl)

/-- Acknowledging a prepare concerns the callback only. -/
theorem Awake.acknowledgePrepare {partitions : PartitionSet} (h : t.Awake)
    (hok : t.acknowledgePrepare partitions = .ok t') : t'.Awake := by
  unfold Transaction.acknowledgePrepare at hok
  split at hok
  · cases hok
    exact h
  · obtain ⟨_, _, rfl⟩ := Outcome.map_ok hok
    exact h.of_latch rfl (.inl rfl)

/-- A round that starts at the base partition arms its latch with what is outstanding once
the queued results are in, unless an error waits to be reported. -/
theorem latch_startRound (hok : t.startRound t.admission.base = .ok t') :
    t'.round.latch = some ⟨if t.pendingError.isSome then 0
      else t.round.expected - (t.round.received + t.round.queued.length)⟩ := by
  obtain ⟨_, ⟨hne, _⟩ | ⟨_, r, hr, rfl⟩⟩ := startRound_ok hok
  · exact absurd rfl hne
  · obtain ⟨m, hm, _, _, _, rfl⟩ := Round.start_ok hr
    have hexpected : m.expected = t.round.expected := (Round.foldlM_accept_settles hm).expected
    have hreceived : m.received = t.round.received + t.round.queued.length :=
      (Round.foldlM_accept_counts hm).1
    rw [← hreceived, ← hexpected]
    rfl

/-- Starting a round puts a transaction to sleep exactly when its error has been reported and
results are outstanding. -/
theorem awake_startRound_iff (hok : t.startRound t.admission.base = .ok t') :
    t'.Awake ↔ ¬ t.Relapses (.booked (.startRound t.admission.base)) := by
  have hsame : t'.hasFailed = t.hasFailed :=
    congrArg Option.isSome (passes_startRound hok).abortReason
  have hlatch := latch_startRound hok
  constructor
  -- The latch that is armed counts what is outstanding, and the transaction has failed without an
  -- error to report. So it could only be open with nothing outstanding.
  · rintro hawake ⟨-, hfailed, hpending, houtstanding⟩
    have hopen := hawake (hsame.trans hfailed)
    rw [hlatch, hpending] at hopen
    have hcount : t.round.expected - (t.round.received + t.round.queued.length) = 0 := by
      simpa [Latch.isOpen] using hopen
    omega
  -- A pending error arms an open latch; without one, nothing was outstanding.
  · intro hno hfailed
    rw [hlatch]
    cases hpending : t.pendingError with
    | some e => rfl
    | none =>
      have hcount : t.round.expected - (t.round.received + t.round.queued.length) = 0 := by
        by_contra hmore
        exact hno ⟨rfl, hsame ▸ hfailed, hpending, by omega⟩
      simp [Latch.isOpen, hcount]

/-- What one act does: a transaction that is awake stays so, unless the act is a relapse. Starting a
round at the base partition is the only act that arms a latch. The others are gone through one by
one, and leave the latch as it is or open it further. -/
theorem Awake.step (h : t.Awake) (hok : act.run t = .ok t') :
    t'.Awake ↔ ¬ t.Relapses act := by
  by_cases hstart : act = .booked (.startRound t.admission.base)
  · subst hstart
    exact awake_startRound_iff hok
  · -- No other act arms a latch: it opens the latch, puts it away or leaves it as it is.
    refine ⟨fun _ hrelapse => hstart hrelapse.start, fun _ => ?_⟩
    cases act with
    | fastInitRound | fastFinishRound =>
      obtain ⟨_, _, rfl⟩ := Outcome.map_ok hok
      exact h.of_latch rfl (.inl rfl)
    | booked op =>
      cases op with
      | startRound p =>
        obtain ⟨_, ⟨_, rfl⟩ | ⟨hbase, _⟩⟩ := startRound_ok hok
        · exact h.of_latch rfl (.inl rfl)
        · exact absurd (by rw [hbase]) hstart
      | initRound p token => exact h.initRound hok
      | finishRound p => exact h.finishRound hok
      | addTask task =>
        obtain ⟨_, hadd, rfl⟩ := Outcome.map_ok hok
        exact h.addTask hadd
      | addResult x => exact h.addResult hok
      | takeInputs task =>
        obtain ⟨_, htake, rfl⟩ := Outcome.map_ok hok
        exact h.takeInputs htake
      | readResults =>
        obtain ⟨_, _, rfl⟩ := Outcome.map_ok hok
        exact h
      | fail e => cases hok; exact h.fail e
      | wait timeout => cases hok; exact h.wait timeout
      | acknowledgePrepare partitions => exact h.acknowledgePrepare hok
      | finish => cases hok; exact h.of_latch rfl (.inr rfl)
      | setBatchSize | takeUnblocked | takeError | markDone | expectPrepare | refusePrepare
      | setLastResults | takeLastResults => cases hok; exact h.of_latch rfl (.inl rfl)

/-! ### A whole run -/

/-- What holds in every state that a run passes, and of what is left to be done there. -/
def Along (P : Transaction → List Act → Prop) (t : Transaction) (acts : List Act) : Prop :=
  ∀ before after u, acts = before ++ after → before.foldlM Act.run t = .ok u → P u after

section Along

variable {P : Transaction → List Act → Prop}

/-- Along no acts, what is asked of the state is asked of it alone. -/
theorem along_nil : Along P t [] ↔ P t [] := by
  refine ⟨fun h => h [] [] t rfl rfl, fun h before after u hacts hu => ?_⟩
  obtain ⟨rfl, rfl⟩ := List.append_eq_nil_iff.mp hacts.symm
  cases hu
  exact h

/-- A run passes the state that it begins in, and those that the rest of it passes. By this, what is
said of all states along a run can be proved by induction on its acts. -/
theorem along_cons (hact : act.run t = .ok u) :
    Along P t (act :: acts) ↔ P t (act :: acts) ∧ Along P u acts := by
  constructor
  · refine fun h => ⟨h [] _ t rfl rfl, fun before after v hsplit hv => ?_⟩
    exact h (act :: before) after v (congrArg (act :: ·) hsplit)
      (Outcome.foldlM_cons_iff.mpr ⟨u, hact, hv⟩)
  · rintro ⟨hfirst, hlater⟩ before after v hsplit hv
    cases before with
    | nil =>
      cases hv
      obtain rfl : act :: acts = after := hsplit
      exact hfirst
    | cons act' before =>
      obtain ⟨rfl, hrest⟩ := List.cons.inj hsplit
      obtain ⟨u', hact', hv⟩ := Outcome.foldlM_cons_ok hv
      obtain rfl := Except.ok.inj (hact.symm.trans hact')
      exact hlater before after v hrest hv

end Along

/-- No relapse comes next. -/
def Steady (t : Transaction) (acts : List Act) : Prop := ∀ act ∈ acts.head?, ¬ t.Relapses act

/-- Along a run from a state that is awake, all states are awake exactly when no act is a
relapse. -/
theorem awake_run_iff (h : t.Awake) (hrun : acts.foldlM Act.run t = .ok t') :
    Along (fun u _ => u.Awake) t acts ↔ Along Steady t acts := by
  -- The invariant is that the run is awake so far, and `Awake.step` decides about the next state.
  induction acts generalizing t with
  | nil =>
    have hsteady : Steady t [] := fun _ hact => nomatch hact
    exact along_nil.trans (Iff.trans ⟨fun _ => hsteady, fun _ => h⟩ along_nil.symm)
  | cons act rest ih =>
    obtain ⟨m, hm, hrest⟩ := Outcome.foldlM_cons_ok hrun
    have hstep := h.step hm
    rw [along_cons hm, along_cons hm]
    constructor
    · rintro ⟨-, hlater⟩
      have hawake : m.Awake := hlater [] rest m rfl rfl
      refine ⟨fun act' hact' => ?_, (ih hawake hrest).mp hlater⟩
      cases hact'
      exact hstep.mp hawake
    · rintro ⟨hsteady, hlater⟩
      have hawake : m.Awake := hstep.mpr (hsteady act rfl)
      exact ⟨h, (ih hawake hrest).mpr hlater⟩

/-- A transaction that has not failed is awake. -/
theorem awake_start {a : Admission} {poolIdle : Nat}
    (h : Transaction.start a poolIdle = .ok t) : t.Awake := by
  intro _
  rw [(start_ok h).1]
  rfl

/-- Whatever is done to a transaction: its latch is open or absent in every state in which an
error has been recorded, so that every wait there ends at once, exactly when no round is
started with results outstanding after the error has been reported. -/
theorem errors_wake_iff {a : Admission} {poolIdle : Nat} {t₀ : Transaction}
    (hstart : Transaction.start a poolIdle = .ok t₀) (hrun : acts.foldlM Act.run t₀ = .ok t) :
    Along (fun u _ => u.hasFailed = true → u.round.latch.all Latch.isOpen = true
        ∧ ∀ timeout, (u.wait timeout).2 = u.pendingError.elim .ready .failed) t₀ acts
      ↔ Along Steady t₀ acts := by
  rw [← awake_run_iff (awake_start hstart) hrun]
  constructor
  · exact fun h before after u hsplit hu hfailed => (h before after u hsplit hu hfailed).1
  · intro h before after u hsplit hu hfailed
    have hopen := h before after u hsplit hu hfailed
    exact ⟨hopen, wait_of_drained hopen⟩

/-- A task that produces one table. -/
def singleTask (d : DependencyId) : Task := ⟨1, 1, 0, [⟨100, 0, 0, none, some d, []⟩]⟩

/-- A round that is opened and started with one result outstanding. -/
def openedRound : List Act :=
  [.booked (.initRound 0 1), .booked (.setBatchSize 1), .booked (.addTask (singleTask 5)),
    .booked (.startRound 0)]

/-- The error of a remote partition. -/
def remoteFailure : TxnError := .aborted 1 "remote failure"

/-- A round that starts while an error waits to be reported. -/
def failedRound : List Act := .booked (.fail remoteFailure) :: openedRound

/-- A round in which an error is recorded while results are outstanding: its latch is open, and the
wait reports the error. -/
theorem errors_wake_iff_failedRound :
    ∃ t₀ t, Transaction.start soloAdmission 0 = .ok t₀ ∧ failedRound.foldlM Act.run t₀ = .ok t
      ∧ t.hasFailed = true ∧ t.round.latch = some ⟨0⟩
      ∧ ∀ timeout, (t.wait timeout).2 = .failed remoteFailure := by
  refine ⟨_, _, rfl, rfl, rfl, rfl, fun timeout => ?_⟩
  have h := errors_wake_iff (show Transaction.start soloAdmission 0 = .ok _ from rfl)
    (show failedRound.foldlM Act.run _ = .ok _ from rfl)
  -- A round is started once, and the error is still there to be reported.
  have hother : ∀ {u : Transaction} {act : Act} {rest : List Act},
      (∀ p, act ≠ .booked (.startRound p)) → Steady u (act :: rest) := by
    intro u act rest hact act' hact' hrelapse
    cases hact'
    exact hact _ hrelapse.start
  have hstart : ∀ {u : Transaction} {act : Act} {rest : List Act},
      u.pendingError.isSome = true → Steady u (act :: rest) := by
    intro u act rest hpending act' _ hrelapse
    rw [hrelapse.reported] at hpending
    cases hpending
  refine ((h.mpr ?_) failedRound [] _ rfl rfl rfl).2 timeout
  exact (along_cons rfl).mpr ⟨hother (by simp), (along_cons rfl).mpr ⟨hother (by simp),
    (along_cons rfl).mpr ⟨hother (by simp), (along_cons rfl).mpr ⟨hother (by simp),
      (along_cons rfl).mpr ⟨hstart rfl, along_nil.mpr (fun _ h => nomatch h)⟩⟩⟩⟩⟩

/-- A round that starts after the error has been reported, and the result that it waits
for. -/
def secondRound : List Act :=
  .booked (.fail remoteFailure) :: .booked (.wait none) :: openedRound
    ++ [.booked (.addResult ⟨0, 5, ⟨["v"], [[.int 1]]⟩⟩)]

/-- An error that has been reported does not keep a later round from waiting: its latch stays
armed, the result that would open it is dropped, and a wait without a bound never ends. -/
theorem second_round_sleeps :
    ∃ t₀ t, Transaction.start soloAdmission 0 = .ok t₀ ∧ secondRound.foldlM Act.run t₀ = .ok t
      ∧ t.hasFailed = true ∧ t.round.latch = some ⟨1⟩ ∧ (t.wait none).2 = .never :=
  ⟨_, _, rfl, rfl, rfl, rfl, rfl⟩

end TxnPath.Transaction
