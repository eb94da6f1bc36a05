import TxnPath.Proofs.Site.FirstError
import TxnPath.Proofs.Site.Prepare

/-!
# `TxnPath.Proofs.Site.Verdict`: who has to acknowledge a commit, and who does

A transaction that is predicted to touch several partitions is committed once all its parties have
acknowledged: the partitions predicted, those at which it ran fragments, and its base partition
(`Site.parties`). The hosted ones acknowledge as soon as they are asked, and no other ever does. So
what PREPARE comes to depends on where the parties are hosted, and on nothing else
(`prepare_unasked`).

That is so as long as nobody was asked before (`Unasked`), which no batch changes.
`Service.Pristine` keeps it up for one transaction of a service while batches are all that is
demanded of it. `Service.commit_iff_attended` says what the first attempt to commit then comes to:
the answer, the calls of executors, and the last transaction that counts as committed.
-/

set_option autoImplicit false

namespace TxnPath

open Transaction Site

namespace Site

/-! ### Parties -/

section Parties

variable {t t' : Transaction} {c : PrepareCallback} {p : Nat}

/-- The partitions that have to acknowledge before a transaction is committed. -/
def parties (t : Transaction) : PartitionSet :=
  t.admission.prediction.touched.union (executedPartitions t)

/-- All parties of a transaction are hosted by its site. -/
def Attended (t : Transaction) : Prop := ∀ p ∈ parties t, t.isLocal p = true

instance (t : Transaction) : Decidable (Attended t) :=
  inferInstanceAs (Decidable (∀ p ∈ (parties t).toList, t.isLocal p = true))

/-- The callback that a transaction is admitted with, if several partitions are predicted. -/
def freshCallback (t : Transaction) : PrepareCallback :=
  ⟨some t.admission.txn, t.admission.prediction.touched, ∅, false⟩

/-- If several partitions are predicted, then nobody has been asked yet to acknowledge. -/
def Unasked (t : Transaction) : Prop :=
  t.admission.prediction.isSingle = false → t.prepare = some (freshCallback t)

/-- Starting a transaction keeps what it was admitted with. -/
theorem admission_start {admission : Admission} {poolIdle : Nat}
    (h : Transaction.start admission poolIdle = .ok t) : t.admission = admission := by
  unfold Transaction.start at h
  split at h
  · cases h
  · split at h
    · cases h
    · split at h
      · cases h
        rfl
      · obtain ⟨_, _, rfl⟩ := Outcome.map_ok h
        rfl

/-- A transaction that has just been admitted has asked nobody: its callback, if any, is the fresh
one. -/
theorem unasked_start {admission : Admission} {poolIdle : Nat}
    (h : Transaction.start admission poolIdle = .ok t) : Unasked t := by
  intro hseveral
  rw [admission_start h] at hseveral
  unfold Transaction.start at h
  split at h
  · cases h
  · split at h
    · cases h
    · split at h
      · next hsingle => exact nomatch hseveral.symm.trans hsingle
      · obtain ⟨c, hc, rfl⟩ := Outcome.map_ok h
        cases hc
        rfl

/-- Nobody is asked by a step that does not look at the callback. -/
theorem Unasked.same (h : Unasked t) (hsame : SameCallback t t') : Unasked t' := by
  intro hseveral
  rw [hsame.admission] at hseveral
  rw [hsame.prepare, h hseveral, freshCallback, freshCallback, hsame.admission]

/-! ### What PREPARE comes to -/

/-- The hosted partitions among those that are expected acknowledge, if there are any. What comes of
it is told by the callback: it is ready, or the transaction cannot commit. -/
theorem prepare_eq (hc : t.prepare = some c) (hp : p ∈ asked t c) :
    Site.prepare t = .ok (answered t c,
      match (collected t c).outcome with
      | .ready => .ok .ready
      | outcome => .error (.prepare t.admission.txn outcome.name)) := by
  have hsome : (asked t c).isEmpty = false := List.isEmpty_eq_false_iff.mpr (List.ne_nil_of_mem hp)
  have hacknowledge : (c.expect (executedPartitions t)).acknowledge (asked t c)
      = .ok (collected t c) := by
    rw [PrepareCallback.acknowledge, hsome]
    rfl
  have hasked : (c.expect (executedPartitions t)).expected.filter
      (isLocal { t with prepare := some (c.expect (executedPartitions t)) }) = asked t c := rfl
  have houtcome : (answered t c).prepareOutcome?.getD .ready = (collected t c).outcome := rfl
  unfold Site.prepare acknowledgePrepare
  simp only [expectPrepare, hc, Option.map_some, foldl_markDone, hasked, hacknowledge, Except.map]
  cases h : (collected t c).outcome <;> simp [prepareOutcome?, h, answered]

/-- Once the hosted parties have acknowledged, the others are waited for, if there are any. -/
theorem outcome_collected :
    (collected t (freshCallback t)).outcome = if Attended t then .ready else .waiting := by
  have hready : (parties t).isSubset ((∅ : PartitionSet).union (asked t (freshCallback t))) = true
      ↔ Attended t := by
    rw [PartitionSet.isSubset_iff]
    refine forall₂_congr fun p hp => ?_
    have hasked : p ∈ asked t (freshCallback t) ↔ p ∈ parties t ∧ t.isLocal p = true :=
      PartitionSet.mem_filter
    rw [PartitionSet.mem_union, hasked]
    simp [hp]
  show (if (parties t).isSubset ((∅ : PartitionSet).union (asked t (freshCallback t)))
    then PrepareOutcome.ready else .waiting) = _
  simp only [hready]

/-- Nobody has been asked yet, and all hosted parties acknowledge. PREPARE succeeds if that is all
parties, and else reports that it waits. -/
theorem prepare_unasked (h : Unasked t) (hseveral : t.admission.prediction.isSingle = false)
    (hbase : t.isLocal t.admission.base = true) :
    Site.prepare t = .ok (answered t (freshCallback t),
      if Attended t then .ok .ready
      else .error (.prepare t.admission.txn PrepareOutcome.waiting.name)) := by
  -- The base partition is a hosted party, so that somebody acknowledges.
  have hasked : t.admission.base ∈ asked t (freshCallback t) :=
    PartitionSet.mem_filter.mpr ⟨PartitionSet.mem_union.mpr
      (.inr (PartitionSet.mem_insert.mpr (.inl rfl))), hbase⟩
  rw [prepare_eq (h hseveral) hasked, outcome_collected]
  by_cases hall : Attended t
  · simp [hall]
  · simp [hall]

/-- The verdict on a first attempt to commit: the hosted parties acknowledge at once, so that it is
favourable exactly if all parties are hosted, and otherwise its reason is that PREPARE is still
waiting. -/
theorem verdict_unasked (h : Unasked t) (hseveral : t.admission.prediction.isSingle = false)
    (hbase : t.isLocal t.admission.base = true) (hopen : t.abortReason = none) :
    verdict t true = .ok (answered t (freshCallback t),
      if Attended t then none
      else some (TxnError.prepare t.admission.txn PrepareOutcome.waiting.name).message) := by
  have hasks : (true && !t.hasFailed && !t.admission.prediction.isSingle) = true := by
    rw [hasFailed, hopen, hseveral]
    rfl
  rw [verdict, if_pos hasks, prepare_unasked h hseveral hbase]
  by_cases hall : Attended t
  · simp [hall]
  · simp [hall]

end Parties

/-! ### An attempt to commit -/

section Finish

variable {R : Type} [Scalar R] {s s' : Site R} {a a' : Admitted R} {response : Response}

/-- A site that is about to close the forecast of a transaction. -/
def settled (s : Site R) (t : Transaction) (committed : Bool) : Site R :=
  { s with
    journal := s.journal ++ settlement t committed
    lastCommitted := if committed then max s.lastCommitted t.admission.txn else s.lastCommitted }

/-- Finishing follows the verdict: it settles the work, closes the forecast and answers. The
transaction commits if this was asked for and the verdict names no reason against it. -/
theorem finish_eq {commit : Bool} {t : Transaction} {reason : Option String}
    (h : verdict a.txn commit = .ok (t, reason)) :
    s.finish a commit =
      ((s.settled t (commit && reason.isNone)).closeForecast a.forecast
        (commit && reason.isNone)).map fun s => (s, ⟨t.takeLastResults.1.finish, none⟩,
          if commit && reason.isNone then
            .committed t.admission.txn t.admission.client t.lastResults
          else .aborted t.admission.txn t.admission.client
            (reason.getD "aborted by procedure")) := by
  unfold finish
  rw [h]
  simp only [settled]
  split
  · next hclose => rw [hclose, Except.map]
  · next hclose =>
    rw [hclose, Except.map]
    rfl

/-- What an attempt to commit comes to. A transaction that nobody was asked to acknowledge before
is committed if all its parties are hosted. Else it is rolled back, its work under the last undo
token is undone, and nothing is committed at the site. -/
theorem finish_unasked (h : Unasked a.txn) (hseveral : a.txn.admission.prediction.isSingle = false)
    (hbase : a.txn.isLocal a.txn.admission.base = true) (hopen : a.txn.abortReason = none)
    (hfinish : s.finish a true = .ok (s', a', response)) :
    (response = if Attended a.txn then
        .committed a.txn.admission.txn a.txn.admission.client a.txn.lastResults
      else .aborted a.txn.admission.txn a.txn.admission.client
        (TxnError.prepare a.txn.admission.txn PrepareOutcome.waiting.name).message)
      ∧ s'.lastCommitted = (if Attended a.txn then max s.lastCommitted a.txn.admission.txn
        else s.lastCommitted)
      ∧ s'.journal = s.journal ++ a.txn.undoToken.toList.flatMap fun token =>
        (settledPartitions a.txn).toList.map fun p =>
          if Attended a.txn then .release p token else .undo p token := by
  have hjournal := finish_ok hfinish
  rw [finish_eq (verdict_unasked h hseveral hbase hopen)] at hfinish
  obtain ⟨s₁, hclose, hpair⟩ := Outcome.map_ok hfinish
  have hlast := closeForecast_lastCommitted hclose
  -- The verdict decides between the two, and closing the forecast has no part in it.
  by_cases hall : Attended a.txn
  · simp only [hall, if_true] at hpair hlast ⊢
    cases hpair
    exact ⟨rfl, hlast, hjournal⟩
  · simp only [hall, if_false] at hpair hlast ⊢
    cases hpair
    exact ⟨rfl, hlast, hjournal⟩

/-- Finishing answers once there is a verdict, if the forecast can be closed. -/
theorem finish_total {commit : Bool} {t : Transaction} {reason : Option String}
    {xs : List (Forecast R)} (h : verdict a.txn commit = .ok (t, reason))
    (hminds : s.Minds (a.forecast.toList ++ xs)) : ∃ answer, s.finish a commit = .ok answer := by
  have hsettled : (s.settled t (commit && reason.isNone)).Minds (a.forecast.toList ++ xs) := hminds
  obtain ⟨s', hclose⟩ := closeForecast_total hsettled (commit && reason.isNone)
  rw [finish_eq h, hclose]
  exact ⟨_, rfl⟩

end Finish

/-! ### The partitions of a site -/

section Hosting

variable {R : Type} [Scalar R] {s s' : Site R} {a a' : Admitted R} {d : Demand}

/-- Which partitions a site hosts is settled when it is set up. Predictions do not change it. -/
theorem hosted_predict {txn : TxnId} {p : Procedure} {args : List Value} {base : Nat}
    {answer : Except TxnError (Prediction × Option (Forecast R))}
    (h : s.predict txn p args base = .ok (s', answer)) : s'.hosted = s.hosted := by
  unfold predict at h
  split at h
  · cases h
    rfl
  · split at h
    · cases h
    · cases h
      rfl
    · cases h
      rfl

/-- A call that is admitted knows which partitions the site hosts, and nobody has been asked to
acknowledge yet. -/
theorem hosted_begin {procedure : String} {args : List Value} {client : ClientHandle}
    {answer : Except TxnError (Admitted R)}
    (h : s.begin procedure args client = .ok (s', answer)) :
    s'.hosted = s.hosted
      ∧ ∀ a, answer = .ok a → a.txn.admission.hosted = s.hosted ∧ Unasked a.txn := by
  unfold Site.begin at h
  split at h
  · cases h
    exact ⟨rfl, fun _ hb => nomatch hb⟩
  · split at h
    · cases h
      exact ⟨rfl, fun _ hb => nomatch hb⟩
    · split at h
      · cases h
        exact ⟨rfl, fun _ hb => nomatch hb⟩
      · simp only at h
        split at h
        · cases h
        · next hpredict =>
          have hsame := hosted_predict hpredict
          cases h
          exact ⟨hsame, fun _ hb => nomatch hb⟩
        -- The transaction is admitted with the partitions that the site hosts, and has asked
        -- nobody.
        · next hpredict =>
          have hsame := hosted_predict hpredict
          obtain ⟨t, hstart, hpair⟩ := Outcome.map_ok h
          cases hpair
          refine ⟨hsame, fun b hb => ?_⟩
          cases hb
          refine ⟨?_, unasked_start hstart⟩
          rw [admission_start hstart]
          exact hsame

/-- Batches do not change which partitions are hosted. Sending writes to the journal, and recording
a batch concerns the forecaster. -/
theorem hosted_execute {tasks : List Task} {answer : Except TxnError (List ResultTable)}
    (h : s.execute a tasks = .ok (s', a', answer)) : s'.hosted = s.hosted := by
  rcases execute_cases h with ⟨rfl, _⟩ | ⟨t, ready, s₁, t₁, sent, _, hopened, hwaves, _, hrecord⟩
  · rfl
  · obtain ⟨hopen, hready⟩ := openRound_ok hopened
    obtain ⟨journal, rfl⟩ := waves_site hopen.waiting hready hwaves
    rcases hrecord with ⟨rfl, _⟩ | ⟨recorded, hrecord⟩
    · rfl
    · generalize a'.forecast = later at hrecord
      unfold recordBatch at hrecord
      split at hrecord
      · split at hrecord
        · cases hrecord
        · cases hrecord
          rfl
      · cases hrecord
        rfl

/-- Neither does finishing a transaction. -/
theorem hosted_finish {commit : Bool} {response : Response}
    (h : s.finish a commit = .ok (s', a', response)) : s'.hosted = s.hosted := by
  unfold Site.finish at h
  split at h
  · cases h
  · simp only at h
    split at h
    · cases h
    · next hclose =>
      cases h
      unfold closeForecast at hclose
      split at hclose
      · obtain ⟨_, _, rfl⟩ := Outcome.map_ok hclose
        rfl
      · cases hclose
        rfl

omit [Scalar R] in
/-- Nor giving one up. -/
theorem hosted_abandon (h : s.abandon a = .ok s') : s'.hosted = s.hosted := by
  unfold abandon at h
  split at h
  · obtain ⟨_, _, rfl⟩ := Outcome.map_ok h
    rfl
  · cases h
    rfl

/-- Whatever is demanded of a transaction, the site hosts the same partitions afterwards. It is what
makes the verdict on a transaction depend on the site as it was set up. -/
theorem hosted_demand (h : d.run s a = .ok (s', a')) : s'.hosted = s.hosted := by
  -- Only three of the demands reach the site at all.
  cases d with
  | act deed =>
    obtain ⟨_, _, hpair⟩ := Outcome.map_ok h
    cases hpair
    rfl
  | execute tasks =>
    obtain ⟨_, hrun, hpair⟩ := Outcome.map_ok h
    cases hpair
    exact hosted_execute hrun
  | prepare =>
    obtain ⟨_, _, hpair⟩ := Outcome.map_ok h
    cases hpair
    rfl
  | finish commit =>
    obtain ⟨_, hrun, hpair⟩ := Outcome.map_ok h
    cases hpair
    exact hosted_finish hrun
  | abandon =>
    obtain ⟨_, hrun, hpair⟩ := Outcome.map_ok h
    cases hpair
    exact hosted_abandon hrun

end Hosting

end Site

/-! ### A transaction of a service that only runs batches -/

/-- Nothing but batches is demanded of a transaction. -/
def Request.OnlyBatches (i : Nat) (q : Request) : Prop :=
  ∀ d, q = .demand i d → ∃ tasks, d = .execute tasks

namespace Service

variable {R : Type} [Scalar R] {s₀ s : Site R} {v₀ v v' : Service R} {q : Request}
  {requests before after : List Request} {i : Nat} {a a₀ a' : Admitted R}

/-- So it does after any request. -/
theorem hosted_step (h : v.step q = .ok v') : v'.site.hosted = v.site.hosted := by
  rcases step_cases h with rfl | ⟨_, _, _, rfl, _⟩ | ⟨_, _, _, _, hbegin, _⟩ | ⟨_, _, _, _, rfl⟩
    | ⟨_, _, _, _, _, _, hrun, _⟩
  · rfl
  · rfl
  · exact (hosted_begin hbegin).1
  · rfl
  · exact hosted_demand hrun

/-- A transaction knows which partitions the site hosts, and nobody has been asked to acknowledge
it. -/
structure Pristine (v : Service R) (i : Nat) (a : Admitted R) : Prop where
  listed : v.txns[i]? = some a
  hosted : a.txn.admission.hosted = v.site.hosted
  unasked : Unasked a.txn

/-- As long as only batches are demanded of it, a transaction stays one that nobody was asked about,
whatever is demanded of the others. -/
theorem Pristine.step (h : v.Pristine i a) (hstep : v.step q = .ok v')
    (honly : q.OnlyBatches i) : ∃ a', v'.Pristine i a' := by
  have hhosted := hosted_step hstep
  obtain ⟨a', ha', rfl | ⟨d, hq, hrun⟩⟩ := step_txn hstep h.listed
  · exact ⟨a', ha', h.hosted.trans hhosted.symm, h.unasked⟩
  · obtain ⟨tasks, rfl⟩ := honly d hq
    obtain ⟨⟨s₁, a₁, answer⟩, hbatch, hpair⟩ := Outcome.map_ok hrun
    obtain ⟨-, rfl⟩ := Prod.mk.inj hpair
    have hsame := sameCallback_steps.execute hbatch
    refine ⟨a₁, ha', ?_, h.unasked.same hsame⟩
    rw [hsame.admission, hhosted]
    exact h.hosted

/-- By induction on the requests, so it does over a whole run of the service. -/
theorem Pristine.run (h : v.Pristine i a) (hrun : v.run requests = .ok v')
    (honly : ∀ q ∈ requests, q.OnlyBatches i) : ∃ a', v'.Pristine i a' := by
  induction requests generalizing v a with
  | nil =>
    cases hrun
    exact ⟨a, h⟩
  | cons q rest ih =>
    obtain ⟨m, hstep, hrest⟩ := Outcome.foldlM_cons_ok hrun
    obtain ⟨b, hb⟩ := h.step hstep (honly q List.mem_cons_self)
    exact ih hb hrest fun x hx => honly x (List.mem_cons_of_mem q hx)

/-- A site that hosts one of two partitions. -/
def halfSite : Site Rat :=
  { transferSite ∅ with
    config := { Config.default with localPartitions := [0] }
    forecaster := some (.new transferCatalog accountRouter ∅
      { Config.default with localPartitions := [0] } ∅)
    hosted := [0] }

/-- The site of the examples that hosts one partition of two is one that `Site.new` gives. -/
theorem new_halfSite (readFile : String → Except String String) :
    Site.new { Config.default with localPartitions := [0] } transferCatalog accountRouter
      soloSite.engine ∅ none readFile = .ok (.ok halfSite) := by
  have hconfig : Config.validate { (Config.default : Config Rat) with localPartitions := [0] }
      = .ok () := by
    decide +kernel
  have hcatalog : transferCatalog.validate = .ok () := by decide +kernel
  rw [Site.new, hconfig, hcatalog]
  rfl

/-- It has no forecaster either. -/
theorem sealed_halfSite (f : Forecaster Rat) (hf : halfSite.forecaster = some f) :
    f.store.Sealed := by
  obtain rfl := Option.some.inj hf
  exact GraphStore.sealed_empty

/-- A transfer from account 0 to account 2, both at partition 0. -/
def localTransfer : Request :=
  .demand 0 (.execute [⟨1, 1, 0, [⟨100, 0, 0, none, some 10, [.int 0]⟩,
    ⟨101, 1, 1, none, some 20, [.int 2]⟩]⟩])

/-- A transaction that was predicted to touch several partitions is open, has the other partition
among its parties, and has run at the hosted one. -/
def HalfDone (v : Service Rat) (a : Admitted Rat) : Prop :=
  a.txn.admission.prediction.isSingle = false ∧ a.txn.abortReason = none
    ∧ v.site.hosted = [0] ∧ 1 ∈ (parties a.txn).toList
    ∧ a.txn.undoToken = some 1 ∧ (settledPartitions a.txn).toList = [0]

instance (v : Service Rat) (a : Admitted Rat) : Decidable (HalfDone v a) :=
  inferInstanceAs (Decidable (_ ∧ _))

/-- Whether the transfer is run and leaves its transaction so. -/
def transfersHalf : Bool :=
  match halfSite.begin "transfer" [.int 0, .int 2] 1 with
  | .ok (s, .ok a) =>
    match run ⟨s, [a]⟩ [localTransfer] with
    | .ok v => v.txns[0]?.any fun a => decide (HalfDone v a)
    | .error _ => false
  | _ => false

end Service

end TxnPath
