import TxnPath.Proofs.Outcome
import TxnPath.Proofs.Txn.Balance
import TxnPath.Proofs.Txn.Steps

/-!
# `TxnPath.Proofs.Txn.Conservation`: no dependency is lost

A transaction goes through its operations in any order (`Transaction.Operation`), except
for the two that begin and end a round without its books. A `Tally` is kept beside it:
`Operation.tally` counts the fragments that each operation registers and the results that
it accepts in the current round.

`Transaction.Conserved` is the invariant. Beside the balance of the round it pins the
latch and the order of outputs to the phase of the base partition: the latch exists while
the round is started, and counts what is outstanding unless an error has opened it.
`Conserved.step` keeps it over one operation and `conserved_of_run` over a whole run.

`dependencies_conserved` reads the result off: the counters, the tally and the latch
agree in every state that a transaction reaches, and no operation there stops with a
fault of the books (`Fault.isBookkeeping`).
-/

set_option autoImplicit false

namespace TxnPath

/-- The faults that report books in disorder, whatever the caller did. -/
def Fault.isBookkeeping : Fault → Bool
  | .foreignResult .. => true
  | .round _ cause =>
    match cause with
    | .unregisteredDependency .. => true
    | .surplusResults .. => true
    | .orderAlreadySet => true
    | .latchAlreadyArmed => true
    | .latchNotDrained => true
    | _ => false
  | _ => false

namespace Transaction

/-- An operation of a transaction. A wait that blocks is `takeError` when it begins, what
others do meanwhile, and `takeError` when it ends, after a `fail` if it times out. -/
inductive Operation where
  | initRound (p undoToken : Nat)
  | setBatchSize (n : Nat)
  | startRound (p : Nat)
  | finishRound (p : Nat)
  | addTask (task : Task)
  | addResult (x : Delivery)
  | takeUnblocked
  | takeInputs (task : Task)
  | readResults
  | fail (e : TxnError)
  | takeError
  | wait (timeout : Option Nat)
  | markDone (p : Nat)
  | expectPrepare (partitions : PartitionSet)
  | acknowledgePrepare (partitions : PartitionSet)
  | refusePrepare
  | setLastResults (results : List ResultTable)
  | takeLastResults
  | finish

namespace Operation

/-- The state that an operation leaves behind. -/
def run (t : Transaction) : Operation → Except Fault Transaction
  | .initRound p undoToken => t.initRound p undoToken
  | .setBatchSize n => .ok (t.setBatchSize n)
  | .startRound p => t.startRound p
  | .finishRound p => t.finishRound p
  | .addTask task => (t.addTask task).map Prod.fst
  | .addResult x => t.addResult x
  | .takeUnblocked => .ok t.takeUnblocked.1
  | .takeInputs task => (t.takeInputs task).map Prod.fst
  | .readResults => t.results.map fun _ => t
  | .fail e => .ok (t.fail e)
  | .takeError => .ok t.takeError.1
  | .wait timeout => .ok (t.wait timeout).1
  | .markDone p => .ok (t.markDone p)
  | .expectPrepare partitions => .ok (t.expectPrepare partitions)
  | .acknowledgePrepare partitions => t.acknowledgePrepare partitions
  | .refusePrepare => .ok t.refusePrepare
  | .setLastResults results => .ok (t.setLastResults results)
  | .takeLastResults => .ok t.takeLastResults.1
  | .finish => .ok t.finish

/-- The tally after an operation that leads from `t` to `t'`. The count begins anew with
the round at the base partition; results are accepted by the records that gain them. -/
def tally (t t' : Transaction) (c : Tally) : Operation → Tally
  | .initRound p _ => if p = t.admission.base then .zero else c
  | .finish => .zero
  | .addTask task => { c with
      registered := fun i d => c.registered i d
        + task.fragments.countP fun f => f.index == i && f.output == some d }
  | .startRound _ | .addResult _ => { c with
      accepted := fun i d => c.accepted i d + (t'.round.held i d - t.round.held i d) }
  | _ => c

/-- One operation, with the tally kept beside it. -/
def step (s : Transaction × Tally) (op : Operation) : Except Fault (Transaction × Tally) :=
  (op.run s.1).map fun t' => (t', op.tally s.1 t' s.2)

end Operation

/-- The invariant of transactions, beside a tally of the current round. It joins the books of the
round with its phase, its latch and the errors. -/
structure Conserved (t : Transaction) (c : Tally) : Prop where
  balanced : t.round.Balanced c
  /-- The latch of a round that has started counts what is outstanding, unless an error has opened
  it. -/
  armed : t.phase t.admission.base = .ok .started → ∃ n, t.round.latch = some ⟨n⟩
    ∧ (n = t.round.expected - t.round.received ∨ (t.hasFailed = true ∧ n = 0))
  /-- Otherwise there is no latch. -/
  unarmed : t.phase t.admission.base ≠ .ok .started → t.round.latch = none
  /-- The outputs are put in order only when the round starts. -/
  unordered : t.phase t.admission.base = .ok .initialized → t.round.order = []
  /-- An error that is pending is also on record. -/
  recorded : t.pendingError.isSome = true → t.hasFailed = true

variable {t t' : Transaction} {c : Tally}

/-! ### States in which no round is under way -/

/-- A list of partitions that are all idle gives each of them the idle phase. -/
theorem phase_of_uninitialized {p : Nat} {phase : Phase}
    (hall : ∀ e ∈ t.phases, e.2 = .uninitialized) (h : t.phase p = .ok phase) :
    phase = .uninitialized := by
  obtain ⟨before, rest, hphases, _⟩ := List.lookup_eq_some_iff.mp (lookup_of_phase h)
  refine hall (p, phase) ?_
  rw [hphases]
  exact List.mem_append_right _ List.mem_cons_self

/-- The invariant holds wherever the books are empty and every partition is idle. -/
theorem conserved_of_idle (hround : t.round = .empty)
    (hall : ∀ e ∈ t.phases, e.2 = .uninitialized)
    (hrecorded : t.pendingError.isSome = true → t.hasFailed = true) : t.Conserved .zero where
  balanced := hround ▸ Round.balanced_empty
  armed := fun h => nomatch phase_of_uninitialized hall h
  unarmed := fun _ => by rw [hround]; rfl
  unordered := fun _ => by rw [hround]; rfl
  recorded := hrecorded

/-- A transaction begins with empty books, an empty tally, and a base partition whose round has not
started. -/
theorem conserved_start {a : Admission} {poolIdle : Nat}
    (h : Transaction.start a poolIdle = .ok t) : t.Conserved .zero := by
  obtain ⟨hround, hidle, herror, _⟩ := start_ok h
  exact conserved_of_idle hround hidle fun hsome => by simp [herror] at hsome

/-- A transaction that finishes goes back to the pool, and its books go back to empty ones with it.
-/
theorem conserved_finish (t : Transaction) : t.finish.Conserved .zero := by
  refine conserved_of_idle rfl (fun e he => ?_) fun h => by simp [finish] at h
  obtain ⟨e', _, rfl⟩ := List.mem_map.mp he
  rfl

/-! ### What one operation preserves -/

namespace Conserved

/-- The invariant reads the round, the phase of the base partition and the errors. -/
theorem congr (h : t.Conserved c) (hround : t'.round = t.round)
    (hphase : t'.phase t'.admission.base = t.phase t.admission.base)
    (hfailed : t'.hasFailed = t.hasFailed)
    (hpending : t'.pendingError.isSome = true → t.pendingError.isSome = true) :
    t'.Conserved c where
  balanced := hround ▸ h.balanced
  armed := fun hstarted => by
    rw [hround, hfailed]
    exact h.armed (hphase ▸ hstarted)
  unarmed := fun hstarted => hround ▸ h.unarmed fun h' => hstarted (hphase.trans h')
  unordered := fun hinit => hround ▸ h.unordered (hphase ▸ hinit)
  recorded := fun hsome => hfailed ▸ h.recorded (hpending hsome)

/-- A round that begins at the base partition clears the books. -/
theorem initRound {p token : Nat} (h : t.Conserved c) (hok : t.initRound p token = .ok t') :
    t'.Conserved (if p = t.admission.base then .zero else c) := by
  obtain ⟨phase, hphase, _, _, ⟨hbase, rfl⟩ | ⟨rfl, rfl⟩⟩ := initRound_ok hok
  · -- At a partition other than the base only its phase moves.
    have hset := phase_setPhase_of_ne hphase .initialized hbase
    rw [if_neg hbase]
    exact h.congr rfl hset rfl id
  · have hset := phase_setPhase_self (t := t.setRound .empty) hphase .initialized
    rw [if_pos rfl]
    refine ⟨Round.balanced_empty, fun hstarted => ?_, fun _ => rfl, fun _ => rfl, h.recorded⟩
    exact nomatch phase_unique hset hstarted

/-- The announced size of a batch is none of the books. -/
theorem setBatchSize (h : t.Conserved c) (n : Nat) : (t.setBatchSize n).Conserved c where
  balanced := ⟨h.balanced.counters, h.balanced.registered, h.balanced.accounted, h.balanced.owed⟩
  armed := h.armed
  unarmed := h.unarmed
  unordered := h.unordered
  recorded := h.recorded

/-- Starting the round at the base partition arms the latch with what is outstanding, or
opens it if there is an error to report. -/
theorem startRound {p : Nat} (h : t.Conserved c) (hok : t.startRound p = .ok t') :
    t'.Conserved { c with
      accepted := fun i d => c.accepted i d + (t'.round.held i d - t.round.held i d) } := by
  obtain ⟨hphase, ⟨hbase, rfl⟩ | ⟨rfl, r, hr, rfl⟩⟩ := startRound_ok hok
  · have hset := phase_setPhase_of_ne hphase .started hbase
    have hsame : (t.setPhase p .started).round = t.round := rfl
    simp only [hsame, Nat.sub_self, Nat.add_zero]
    exact h.congr rfl hset rfl id
  · obtain ⟨m, hm, _, _, _, rfl⟩ := Round.start_ok hr
    have hset := phase_setPhase_self hphase .started
    -- The results that came early are taken in now, and the latch is armed with what is left.
    have hbal := h.balanced.ordered.settles (Round.foldlM_accept_settles hm)
    refine ⟨⟨hbal.counters, hbal.registered, hbal.accounted, hbal.owed⟩, fun _ => ?_,
      fun hstarted => absurd hset hstarted, fun hinit => ?_, h.recorded⟩
    · refine ⟨_, rfl, ?_⟩
      by_cases herror : t.pendingError.isSome = true
      · exact .inr ⟨h.recorded herror, by rw [if_pos herror]⟩
      · exact .inl (by rw [if_neg herror]; rfl)
    · exact nomatch phase_unique hset hinit

/-- Ending the round at the base partition puts the latch away. -/
theorem finishRound {p : Nat} (h : t.Conserved c) (hok : t.finishRound p = .ok t') :
    t'.Conserved c := by
  obtain ⟨hphase, _, _, ⟨hbase, rfl⟩ | ⟨rfl, rfl⟩⟩ := finishRound_ok hok
  · have hset := phase_setPhase_of_ne hphase .finished hbase
    exact h.congr rfl hset rfl id
  · have hset := phase_setPhase_self hphase .finished
    refine ⟨⟨h.balanced.counters, h.balanced.registered, h.balanced.accounted, h.balanced.owed⟩,
      fun hstarted => ?_, fun _ => rfl, fun hinit => ?_, h.recorded⟩
    · exact nomatch phase_unique hset hstarted
    · exact nomatch phase_unique hset hinit

/-- Adding a task registers its fragments. -/
theorem addTask {task : Task} {isBlocked : Bool} (h : t.Conserved c)
    (hok : t.addTask task = .ok (t', isBlocked)) :
    t'.Conserved { c with
      registered := fun i d => c.registered i d
        + task.fragments.countP fun f => f.index == i && f.output == some d } := by
  obtain ⟨hphase, touched, r, _, hr, rfl⟩ := addTask_ok hok
  have hbooks := (Round.addTask_ok hr).1
  have hlatch : r.latch = t.round.latch := by rw [hbooks]
  have horder : r.order = t.round.order := by rw [hbooks]
  refine ⟨h.balanced.addTask hr, fun hstarted => ?_, fun hstarted => ?_, fun _ => ?_, h.recorded⟩
  · exact nomatch phase_unique hphase hstarted
  · exact hlatch.trans (h.unarmed hstarted)
  · exact horder.trans (h.unordered hphase)

/-- A result is dropped, queued, or accepted. An accepted one counts the latch down, together with
what is outstanding. The tally learns of it by how much more the records hold than before. -/
theorem addResult {x : Delivery} (h : t.Conserved c) (hok : t.addResult x = .ok t') :
    t'.Conserved { c with
      accepted := fun i d => c.accepted i d + (t'.round.held i d - t.round.held i d) } := by
  rcases addResult_ok hok with ⟨_, rfl⟩ | ⟨hopen, ⟨hphase, r, hr, rfl⟩ | ⟨hphase, r, hr, rfl⟩⟩
  · simp only [Nat.sub_self, Nat.add_zero]
    exact h
  -- A result before the round starts waits in a queue that no counter speaks of.
  · have hqueue := Round.enqueue_ok hr
    have hheld : ∀ i d, (t.setRound r).round.held i d = t.round.held i d := by
      intro i d
      rw [hqueue]
      rfl
    simp only [hheld, Nat.sub_self, Nat.add_zero]
    subst hqueue
    exact ⟨⟨h.balanced.counters, h.balanced.registered, h.balanced.accounted, h.balanced.owed⟩,
      h.armed, h.unarmed, h.unordered, h.recorded⟩
  · obtain ⟨a, ha, hbooks, _⟩ := Round.accept_ok hr
    have hbal := h.balanced.settles (Round.accept_settles hr)
    have hlatch : r.latch = t.round.latch.map Latch.countDown := by rw [hbooks]
    have hexpected : r.expected = t.round.expected := by rw [hbooks]
    have hreceived : r.received = t.round.received + 1 := by rw [hbooks]
    refine ⟨hbal, fun _ => ?_, fun hstarted => absurd hphase hstarted, fun hinit => ?_, h.recorded⟩
    · -- The latch and what is outstanding go down together, unless an error has opened it.
      obtain ⟨n, hn, hcount⟩ := h.armed hphase
      refine ⟨n - 1, ?_, ?_⟩
      · show r.latch = _
        rw [hlatch, hn]
        rfl
      · show n - 1 = r.expected - r.received ∨ _
        rw [hexpected, hreceived]
        rcases hcount with hcount | ⟨hfailed, hcount⟩
        · exact .inl (by omega)
        · exact .inr ⟨hfailed, by omega⟩
    · exact nomatch phase_unique hphase hinit

/-- Taking inputs touches entries only. Counters, latch and order are those of before, and so all
that the invariant says of them. -/
theorem takeInputs {task : Task} {taken : List (DependencyId × List ResultTable)}
    (h : t.Conserved c) (hok : t.takeInputs task = .ok (t', taken)) : t'.Conserved c := by
  obtain ⟨r, hr, rfl⟩ := takeInputs_ok hok
  have hbooks := (Round.takeInputs_ok hr).1
  have hexpected : r.expected = t.round.expected := by rw [hbooks]
  have hreceived : r.received = t.round.received := by rw [hbooks]
  have hlatch : r.latch = t.round.latch := by rw [hbooks]
  have horder : r.order = t.round.order := by rw [hbooks]
  refine ⟨h.balanced.takeInputs hr, fun hstarted => ?_,
    fun hstarted => hlatch.trans (h.unarmed hstarted),
    fun hinit => horder.trans (h.unordered hinit), h.recorded⟩
  show ∃ n, r.latch = _ ∧ (n = r.expected - r.received ∨ _)
  rw [hlatch, hexpected, hreceived]
  exact h.armed hstarted

/-- The first error opens the latch, and later ones are dropped. The counters do not move: what is
outstanding stays so, and its results are dropped when they come. -/
theorem fail (h : t.Conserved c) (e : TxnError) : (t.fail e).Conserved c := by
  unfold Transaction.fail
  split
  · exact h
  -- An error opens the latch where there is one. From then on the latch no longer counts what is
  -- outstanding, which the invariant allows once an error is recorded.
  · refine ⟨⟨h.balanced.counters, h.balanced.registered, h.balanced.accounted, h.balanced.owed⟩,
      fun hstarted => ?_, fun hstarted => ?_, h.unordered, fun _ => rfl⟩
    · obtain ⟨n, hn, _⟩ := h.armed hstarted
      refine ⟨0, ?_, .inr ⟨rfl, rfl⟩⟩
      show t.round.latch.map Latch.releaseAll = _
      rw [hn]
      rfl
    · show t.round.latch.map Latch.releaseAll = _
      rw [h.unarmed hstarted]
      rfl

/-- Reporting an error clears it and keeps the latch as the error has left it. -/
theorem takeError (h : t.Conserved c) : t.takeError.1.Conserved c :=
  h.congr rfl rfl rfl fun hsome => by simp [Transaction.takeError] at hsome

/-- Waiting is at most noting an error, and reporting one. -/
theorem wait (h : t.Conserved c) (timeout : Option Nat) : (t.wait timeout).1.Conserved c := by
  rcases wait_eq t timeout with hsame | ⟨e, htimeout, _⟩
  · rw [hsame]
    exact h.takeError
  · rw [htimeout]
    exact (h.takeError.fail e).takeError

/-- Every operation keeps the invariant, with the tally that it leads to. Those that open and close
rounds, register tasks and take in results have lemmas of their own; the others leave the books
alone. -/
theorem run (h : t.Conserved c) {op : Operation} (hok : op.run t = .ok t') :
    t'.Conserved (op.tally t t' c) := by
  cases op with
  | initRound p undoToken => exact h.initRound hok
  | setBatchSize n => cases hok; exact h.setBatchSize n
  | startRound p => exact h.startRound hok
  | finishRound p => exact h.finishRound hok
  | addTask task =>
    obtain ⟨⟨t'', isBlocked⟩, hadd, rfl⟩ := Outcome.map_ok hok
    exact h.addTask hadd
  | addResult x => exact h.addResult hok
  -- The unblocked tasks are handed over; the books do not mention them.
  | takeUnblocked =>
    cases hok
    exact ⟨⟨h.balanced.counters, h.balanced.registered, h.balanced.accounted, h.balanced.owed⟩,
      h.armed, h.unarmed, h.unordered, h.recorded⟩
  | takeInputs task =>
    obtain ⟨⟨t'', taken⟩, htake, rfl⟩ := Outcome.map_ok hok
    exact h.takeInputs htake
  | readResults =>
    obtain ⟨_, _, rfl⟩ := Outcome.map_ok hok
    exact h
  | fail e => cases hok; exact h.fail e
  | takeError => cases hok; exact h.takeError
  | wait timeout => cases hok; exact h.wait timeout
  -- The other operations change what the books do not mention.
  | markDone p => cases hok; exact h.congr rfl rfl rfl id
  | expectPrepare partitions => cases hok; exact h.congr rfl rfl rfl id
  | acknowledgePrepare partitions =>
    change t.acknowledgePrepare partitions = .ok t' at hok
    unfold acknowledgePrepare at hok
    split at hok
    · cases hok; exact h
    · obtain ⟨_, _, rfl⟩ := Outcome.map_ok hok
      exact h.congr rfl rfl rfl id
  | refusePrepare => cases hok; exact h.congr rfl rfl rfl id
  | setLastResults results => cases hok; exact h.congr rfl rfl rfl id
  | takeLastResults => cases hok; exact h.congr rfl rfl rfl id
  | finish => cases hok; exact conserved_finish t

end Conserved

/-- A run of operations keeps the invariant. -/
theorem conserved_of_run {ops : List Operation} (h : t.Conserved c) {s' : Transaction × Tally}
    (hrun : ops.foldlM Operation.step (t, c) = .ok s') : s'.1.Conserved s'.2 := by
  induction ops generalizing t c with
  | nil => cases hrun; exact h
  | cons op rest ih =>
    obtain ⟨s, hop, hrest⟩ := Outcome.foldlM_cons_ok hrun
    obtain ⟨t', ht', rfl⟩ := Outcome.map_ok hop
    exact ih (h.run ht') hrest

/-! ### The faults that remain -/

/-- A phase that cannot be asked for is that of a partition which the transaction does not host. -/
theorem phase_error {p : Nat} {f : Fault} (h : t.phase p = .error f) :
    f = t.fault (.notHosted p) := by
  unfold Transaction.phase at h
  split at h
  · cases h
  · cases h; rfl

/-- Counting the fragments of a partition can overflow or be out of bounds, and nothing else. -/
theorem add?_error {h : DenseHistogram} {k n : Nat} {f : Fault} (herr : h.add? k n = .error f) :
    f = .outOfBounds ∨ f = .overflow := by
  unfold DenseHistogram.add? at herr
  split at herr
  · cases herr; exact .inl rfl
  · exact .inr (Outcome.guard_error herr)

/-- Taking inputs stops only over an input that is not there in full. This is not a fault of the
books. -/
theorem takeInputs_error {r : Round} {txn : TxnId} {base : Nat} {task : TaskId}
    {taken : List (DependencyId × List ResultTable)} {fs : List Fragment} {f : Fault}
    (h : Round.takeInputs txn base task r taken fs = .error f) : f.isBookkeeping = false := by
  induction fs generalizing r taken with
  | nil => cases h
  | cons g rest ih =>
    unfold Round.takeInputs at h
    split at h
    · exact ih h
    · split at h
      · exact ih h
      -- Missing records and incomplete ones are faults of the task that asks, not of the books.
      · split at h
        · cases h; rfl
        · split at h
          · exact ih h
          · cases h; rfl

/-- Reading back the results of a batch can miss a result, which is not a fault of the books. -/
theorem resultAt_error {r : Round} {txn : TxnId} {position : DependencyId × Nat} {f : Fault}
    (h : r.resultAt txn position = .error f) : f.isBookkeeping = false := by
  unfold Round.resultAt at h
  split at h
  · cases h; rfl
  · split at h
    · cases h; rfl
    · cases h

/-- A balanced round starts without a fault of the books as long as neither the order of its
outputs nor its latch is set. -/
theorem start_error {r : Round} {txn : TxnId} {failed : Bool} {f : Fault} (hbal : r.Balanced c)
    (horder : r.order = []) (hlatch : r.latch = none) (h : r.start txn failed = .error f) :
    f.isBookkeeping = false := by
  unfold Round.start at h
  split at h
  · next hset => simp [horder] at hset
  · split at h
    · cases h; rfl
    · split at h
      · cases h; rfl
      · split at h
        · next hfold =>
          cases h
          obtain ⟨p, d, rfl⟩ := hbal.ordered.foldlM_accept_error hfold
          rfl
        · next m hm =>
          have hsettles := Round.foldlM_accept_settles hm
          -- No more results have come than fragments are registered.
          have hcounters := (hbal.ordered.settles hsettles).counters
          split at h
          · next hsurplus => omega
          · split at h
            · next harmed => simp [hsettles.unarmed hlatch] at harmed
            · cases h

namespace Conserved

variable {f : Fault}

/-- Starting a round takes in the queued results. All of them are owed to someone or refused for the
one reason that is not a fault of the books. -/
theorem startRound_error {p : Nat} (h : t.Conserved c) (herr : t.startRound p = .error f) :
    f.isBookkeeping = false := by
  unfold Transaction.startRound at herr
  split at herr
  · next hphase => cases herr; cases phase_error hphase; rfl
  · next phase hphase =>
    split at herr
    · cases herr; rfl
    · next hinit =>
      have hinit : phase = .initialized := by simpa using hinit
      subst hinit
      simp only at herr
      split at herr
      · cases herr
      · next hbase =>
        have hbase : p = t.admission.base := Decidable.not_not.mp hbase
        subst hbase
        -- Before it starts the round has neither latch nor order, so that their checks are passed.
        have hlatch := h.unarmed fun hstarted => nomatch hphase.symm.trans hstarted
        exact start_error h.balanced (h.unordered hphase) hlatch (Outcome.map_error herr)

/-- A round ends without a fault of the books: its latch is open when all results are in. Other
faults come first, of rounds that are at another phase or have results outstanding; and then the
latch has been counted down to zero, or an error has opened it. -/
theorem finishRound_error {p : Nat} (h : t.Conserved c) (herr : t.finishRound p = .error f) :
    f.isBookkeeping = false := by
  unfold Transaction.finishRound at herr
  split at herr
  · next hphase => cases herr; cases phase_error hphase; rfl
  · next phase hphase =>
    split at herr
    · cases herr; rfl
    · next hcounters =>
      have hcounters : t.round.expected = t.round.received := by simpa using hcounters
      split at herr
      · cases herr; rfl
      · split at herr
        · cases herr; rfl
        · next hstarted =>
          have hstarted : phase = .started := by simpa using hstarted
          subst hstarted
          simp only at herr
          split at herr
          · cases herr
          · next hbase =>
            have hbase : p = t.admission.base := Decidable.not_not.mp hbase
            subst hbase
            -- With all results in, the latch is at zero, so that it is open.
            obtain ⟨n, hlatch, hcount⟩ := h.armed hphase
            have hn : n = 0 := by rcases hcount with hcount | ⟨_, hcount⟩ <;> omega
            subst hn
            split at herr
            · cases herr
            · next hclosed =>
              have hsame : (t.setPhase t.admission.base .finished).round.latch = some ⟨0⟩ := hlatch
              simp [hsame, Latch.isOpen] at hclosed

/-- A task is refused because of its phase, its destination, or its being there already. None of
these is a fault of the books. -/
theorem addTask_error {task : Task} (herr : t.addTask task = .error f) :
    f.isBookkeeping = false := by
  unfold Transaction.addTask at herr
  split at herr
  · next hphase => cases herr; cases phase_error hphase; rfl
  · split at herr
    · cases herr; rfl
    · split at herr
      · next hadd =>
        cases herr
        -- The destination is counted first.
        rcases add?_error hadd with rfl | rfl
        · rfl
        · rfl
      · split at herr
        · next hround =>
          cases herr
          rw [Round.addTask_error hround]
          rfl
        · cases herr

/-- A result is refused without a fault of the books: whoever owes it is a producer of
the record that it goes to. -/
theorem addResult_error {x : Delivery} (h : t.Conserved c) (herr : t.addResult x = .error f) :
    f.isBookkeeping = false := by
  unfold Transaction.addResult at herr
  split at herr
  · next hphase => cases herr; cases phase_error hphase; rfl
  · split at herr
    · cases herr
    · split at herr
      · split at herr
        · next hround =>
          cases herr
          unfold Round.enqueue at hround
          split at hround
          · cases hround; rfl
          · cases hround
        · cases herr
      -- A balanced round refuses a result for one reason only.
      · rw [h.balanced.accept_error (Outcome.map_error herr)]
        rfl
      · cases herr; rfl
      · cases herr; rfl

/-- A round that is opened too early is refused, and the books are not looked at. -/
theorem initRound_error {p token : Nat} (herr : t.initRound p token = .error f) :
    f.isBookkeeping = false := by
  unfold Transaction.initRound at herr
  split at herr
  · next hphase => cases herr; cases phase_error hphase; rfl
  · split at herr
    · cases herr; rfl
    · split at herr
      · cases herr; rfl
      · cases herr

/-- No operation stops with a fault of the books. Every fault that is left is about the request: it
came out of turn, named what is not there, or asked for inputs that were gone. -/
theorem run_error (h : t.Conserved c) {op : Operation} (herr : op.run t = .error f) :
    f.isBookkeeping = false := by
  cases op with
  | initRound p undoToken => exact initRound_error herr
  | startRound p => exact h.startRound_error herr
  | finishRound p => exact h.finishRound_error herr
  | addTask task => exact addTask_error (Outcome.map_error herr)
  | addResult x => exact h.addResult_error herr
  | takeInputs task =>
    exact takeInputs_error (Outcome.map_error (Outcome.map_error herr))
  | readResults =>
    obtain ⟨position, _, hposition⟩ := Outcome.mapM_error (Outcome.map_error herr)
    exact resultAt_error hposition
  | acknowledgePrepare partitions =>
    change t.acknowledgePrepare partitions = .error f at herr
    unfold acknowledgePrepare at herr
    split at herr
    · cases herr
    · have herr := Outcome.map_error herr
      unfold PrepareCallback.acknowledge at herr
      split at herr
      · cases herr; rfl
      · cases herr
  -- What remains cannot stop.
  | setBatchSize n => cases herr
  | takeUnblocked => cases herr
  | fail e => cases herr
  | takeError => cases herr
  | wait timeout => cases herr
  | markDone p => cases herr
  | expectPrepare partitions => cases herr
  | refusePrepare => cases herr
  | setLastResults results => cases herr
  | takeLastResults => cases herr
  | finish => cases herr

end Conserved

/-! ### Every reachable state -/

/-- In every state that a transaction reaches:

- a result is expected for every result received and every fragment in the queue;
- the fragments registered for a dependency of a statement are the producers of its
  record, and each of them has had its result accepted or is in the queue;
- while the round at the base partition is started and no error is recorded, the latch
  counts what is outstanding;
- no operation stops with a fault of the books. -/
theorem dependencies_conserved {a : Admission} {poolIdle : Nat} {t₀ : Transaction}
    {ops : List Operation} (hstart : Transaction.start a poolIdle = .ok t₀)
    (hrun : ops.foldlM Operation.step (t₀, .zero) = .ok (t, c)) :
    t.round.expected = t.round.received + t.round.awaited.length
      ∧ (∀ i d, (t.round.entry i d).producers.length = c.registered i d
          ∧ c.registered i d = c.accepted i d + t.round.pending i d)
      ∧ (t.phase t.admission.base = .ok .started → t.hasFailed = false →
          t.round.latch = some ⟨t.round.expected - t.round.received⟩)
      ∧ ∀ (op : Operation) (f : Fault), op.run t = .error f → f.isBookkeeping = false := by
  have h : t.Conserved c := conserved_of_run (conserved_start hstart) hrun
  refine ⟨h.balanced.counters, fun i d => ⟨h.balanced.registered i d, h.balanced.accounted i d⟩,
    fun hstarted hopen => ?_, fun op f herr => h.run_error herr⟩
  obtain ⟨n, hn, hcount⟩ := h.armed hstarted
  rcases hcount with rfl | ⟨hfailed, _⟩
  · exact hn
  · rw [hopen] at hfailed
    cases hfailed

/-- A transaction at the only partition of its store. -/
def soloAdmission : Admission := ⟨1, 1, 0, false, 0, [0], 1, .single 0⟩

/-- A task that produces one table for each of two statements. -/
def pairTask (d e : DependencyId) : Task :=
  ⟨1, 1, 0, [⟨100, 0, 0, none, some d, []⟩, ⟨200, 1, 1, none, some e, []⟩]⟩

/-- A batch of two statements, the first result of which comes before the round starts. -/
def earlyRun : List Operation :=
  [.initRound 0 1, .setBatchSize 2,
    .addTask ⟨1, 1, 0, [⟨100, 0, 0, none, some 5, []⟩, ⟨200, 1, 1, none, some 6, []⟩]⟩,
    .addResult ⟨0, 5, ⟨[], []⟩⟩, .startRound 0]

/-- A run in which one of two results arrives before the round starts: it counts as accepted once
the round has started, and the latch is down to the other. -/
theorem dependencies_conserved_earlyRun :
    ∃ t₀ t c, Transaction.start soloAdmission 0 = .ok t₀
      ∧ earlyRun.foldlM Operation.step (t₀, .zero) = .ok (t, c)
      ∧ t.round.expected = 2 ∧ c.accepted 0 5 = 1 ∧ t.round.latch = some ⟨1⟩
      ∧ t.round.expected = t.round.received + t.round.awaited.length
      ∧ c.registered 1 6 = c.accepted 1 6 + t.round.pending 1 6
      ∧ t.round.latch = some ⟨t.round.expected - t.round.received⟩ := by
  refine ⟨_, _, _, rfl, rfl, rfl, rfl, rfl, ?_⟩
  have h := dependencies_conserved (show Transaction.start soloAdmission 0 = .ok _ from rfl)
    (show earlyRun.foldlM Operation.step _ = .ok _ from rfl)
  exact ⟨h.1, (h.2.1 1 6).2, h.2.2.1 rfl rfl⟩

end Transaction

end TxnPath
