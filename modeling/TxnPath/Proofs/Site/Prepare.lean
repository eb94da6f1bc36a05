import TxnPath.Proofs.Site.Settlement

/-!
# `TxnPath.Proofs.Site.Prepare`: which partitions acknowledge before a commit

A transaction that is predicted to touch several partitions carries a callback that
collects acknowledgements; one that is predicted to touch a single partition carries none.
`Equipped` says so, and that whatever the callback has collected counts as done. No step
of a batch looks at the callback (`sameCallback_steps`), so that a transaction stays
equipped as it was when it was admitted, whatever its batches touch.

Preparing adds the partitions with fragments to those that the callback expects, and a
commit needs all that are expected (`prepare_ok`). Where there is no callback, nobody is
asked. `acknowledged_iff_several_predicted` is the consequence for a commit: either every
partition with fragments has acknowledged before its undo token is released, or a single
partition was predicted. `transfer_unprepared` commits at two partitions without asking
either.
-/

set_option autoImplicit false

namespace TxnPath

/-- A partition has acknowledged that the transaction can commit. -/
def Transaction.Acknowledged (t : Transaction) (p : Nat) : Prop :=
  p ∈ t.done ∧ ∃ c, t.prepare = some c ∧ c.txn = some t.admission.txn ∧ p ∈ c.acknowledged

namespace Site

open Transaction

/-! ### The callback of a transaction -/

/-- The second transaction has the callback of the first, and has been prepared at the
same partitions. -/
structure SameCallback (t t' : Transaction) : Prop where
  admission : t'.admission = t.admission
  done : t'.done = t.done
  prepare : t'.prepare = t.prepare

/-- Two steps that do not look at the callback do not together. -/
theorem SameCallback.trans {t t' t'' : Transaction} (h : SameCallback t t')
    (h' : SameCallback t' t'') : SameCallback t t'' :=
  ⟨h'.admission.trans h.admission, h'.done.trans h.done, h'.prepare.trans h.prepare⟩

/-- Noting an error does not look at it. -/
theorem sameCallback_fail (t : Transaction) (e : TxnError) : SameCallback t (t.fail e) := by
  unfold Transaction.fail
  split
  · exact ⟨rfl, rfl, rfl⟩
  · exact ⟨rfl, rfl, rfl⟩

/-- Nor does any step of a batch, so that batches leave the callback as it was at admission. The
induction over the steps of a batch is in `StepsKeep`, and here it is only gone through what each
step writes. -/
theorem sameCallback_steps : StepsKeep SameCallback where
  refl _ := ⟨rfl, rfl, rfl⟩
  trans := SameCallback.trans
  initRound h := by
    obtain ⟨_, _, _, _, ⟨_, rfl⟩ | ⟨_, rfl⟩⟩ := initRound_ok h
    · exact ⟨rfl, rfl, rfl⟩
    · exact ⟨rfl, rfl, rfl⟩
  setBatchSize _ _ := ⟨rfl, rfl, rfl⟩
  addTask h := by
    obtain ⟨_, _, _, _, _, rfl⟩ := Transaction.addTask_ok h
    exact ⟨rfl, rfl, rfl⟩
  startRound h := by
    obtain ⟨_, ⟨_, rfl⟩ | ⟨_, _, _, rfl⟩⟩ := startRound_ok h
    · exact ⟨rfl, rfl, rfl⟩
    · exact ⟨rfl, rfl, rfl⟩
  takeInputs h := by
    obtain ⟨_, _, rfl⟩ := takeInputs_ok h
    exact ⟨rfl, rfl, rfl⟩
  addResult h := by
    rcases addResult_ok h with ⟨_, rfl⟩ | ⟨_, ⟨_, _, _, rfl⟩ | ⟨_, _, _, rfl⟩⟩
    · exact ⟨rfl, rfl, rfl⟩
    · exact ⟨rfl, rfl, rfl⟩
    · exact ⟨rfl, rfl, rfl⟩
  takeUnblocked _ := ⟨rfl, rfl, rfl⟩
  fail := sameCallback_fail
  wait t timeout := by
    -- Taking the error to report does not touch the callback either.
    have htake : ∀ t : Transaction, SameCallback t t.takeError.1 := fun _ => ⟨rfl, rfl, rfl⟩
    rcases wait_eq t timeout with h | ⟨e, h, _⟩
    · rw [h]
      exact htake t
    · rw [h]
      exact (htake t).trans ((sameCallback_fail _ e).trans (htake _))
  finishRound h := by
    obtain ⟨_, _, _, ⟨_, rfl⟩ | ⟨_, rfl⟩⟩ := finishRound_ok h
    · exact ⟨rfl, rfl, rfl⟩
    · exact ⟨rfl, rfl, rfl⟩
  setLastResults _ _ := ⟨rfl, rfl, rfl⟩

/-- A transaction has a callback if several partitions are predicted, and the partitions
that have acknowledged are done. -/
structure Equipped (t : Transaction) : Prop where
  single : t.admission.prediction.isSingle = true → t.prepare = none
  several : t.admission.prediction.isSingle = false → ∃ c, t.prepare = some c
    ∧ c.txn = some t.admission.txn ∧ ∀ p ∈ c.acknowledged, p ∈ t.done

/-- A transaction stays equipped as long as its callback is left alone. -/
theorem Equipped.same {t t' : Transaction} (h : Equipped t) (hsame : SameCallback t t') :
    Equipped t' := by
  refine ⟨fun hsingle => ?_, fun hseveral => ?_⟩
  · rw [hsame.admission] at hsingle
    rw [hsame.prepare, h.single hsingle]
  · rw [hsame.admission] at hseveral
    rw [hsame.prepare, hsame.admission, hsame.done]
    exact h.several hseveral

/-- At admission a transaction gets a callback if several partitions are predicted, and none
otherwise. -/
theorem equipped_start {admission : Admission} {poolIdle : Nat} {t : Transaction}
    (h : Transaction.start admission poolIdle = .ok t) : Equipped t := by
  unfold Transaction.start at h
  split at h
  · cases h
  · split at h
    · cases h
    · split at h
      · next hsingle =>
        cases h
        exact ⟨fun _ => rfl, fun hseveral => nomatch hseveral.symm.trans hsingle⟩
      · next hseveral =>
        obtain ⟨c, hc, rfl⟩ := Outcome.map_ok h
        cases hc
        refine ⟨fun hsingle => absurd hsingle hseveral, fun _ => ⟨_, rfl, rfl, fun p hp => ?_⟩⟩
        exact absurd hp (PartitionSet.not_mem_empty p)

/-! ### Preparing -/

section Prepare

variable {t t' : Transaction} {c : PrepareCallback} {outcome : Except TxnError PrepareOutcome}

/-- The hosted partitions among those that have to acknowledge. -/
def asked (t : Transaction) (c : PrepareCallback) : PartitionSet :=
  (c.expect (executedPartitions t)).expected.filter t.isLocal

/-- The callback once those partitions have acknowledged. -/
def collected (t : Transaction) (c : PrepareCallback) : PrepareCallback :=
  { c.expect (executedPartitions t) with acknowledged := c.acknowledged.union (asked t c) }

/-- The transaction once those partitions have acknowledged. -/
def answered (t : Transaction) (c : PrepareCallback) : Transaction :=
  { t with
    done := t.done.insertAll (asked t c).toList
    prepare := some (collected t c) }

/-- A callback is ready once all that it expects have acknowledged. -/
theorem acknowledged_of_ready (h : c.outcome = .ready) : ∀ p ∈ c.expected, p ∈ c.acknowledged := by
  unfold PrepareCallback.outcome at h
  split at h
  · cases h
  · split at h
    · next hsubset => exact PartitionSet.isSubset_iff.mp hsubset
    · cases h

/-- Marking partitions as done one by one is adding them all to those that are done. -/
theorem foldl_markDone (ps : List Nat) (t : Transaction) :
    ps.foldl markDone t = { t with done := t.done.insertAll ps } := by
  induction ps generalizing t with
  | nil => rfl
  | cons p rest ih =>
    rw [List.foldl_cons, ih]
    rfl

/-- Without a callback preparing asks nobody and is ready at once. -/
theorem prepare_none (hnone : t.prepare = none) : prepare t = .ok (t, .ok .ready) := by
  have hexpect : t.expectPrepare (executedPartitions t) = t := by
    rw [expectPrepare, hnone, Option.map_none, ← hnone]
  rw [prepare]
  simp only [hexpect, hnone]

/-- The hosted partitions that are expected acknowledge. If no other is expected then all
partitions with fragments have acknowledged. -/
theorem prepare_ok (hc : t.prepare = some c) (h : prepare t = .ok (t', outcome)) :
    t' = answered t c ∧ ∀ o, outcome = .ok o →
      ∀ p ∈ executedPartitions t, p ∈ (collected t c).acknowledged := by
  unfold prepare acknowledgePrepare at h
  simp only [expectPrepare, hc, Option.map_some, foldl_markDone] at h
  split at h
  · cases h
  · next hacknowledge =>
    obtain ⟨c', hc', rfl⟩ := Outcome.map_ok hacknowledge
    unfold PrepareCallback.acknowledge at hc'
    split at hc'
    · cases hc'
    · cases hc'
      split at h
      -- The callback is ready, and among those it expects are the partitions with fragments, which
      -- were added just before.
      · next hready =>
        have hready : (collected t c).outcome = .ready := hready
        cases h
        refine ⟨rfl, fun _ _ p hp => acknowledged_of_ready hready p ?_⟩
        exact PartitionSet.mem_union.mpr (.inr hp)
      · cases h
        exact ⟨rfl, fun _ h => nomatch h⟩

/-- A partition that acknowledges is done, so that a transaction stays equipped. Without a callback,
which is when a single partition was predicted, there is nothing to do. -/
theorem Equipped.prepare (h : Equipped t) (hprepare : Site.prepare t = .ok (t', outcome)) :
    Equipped t' := by
  cases hsingle : t.admission.prediction.isSingle with
  | true =>
    rw [prepare_none (h.single hsingle)] at hprepare
    cases hprepare
    exact h
  | false =>
    obtain ⟨c, hc, htxn, hdone⟩ := h.several hsingle
    obtain ⟨rfl, _⟩ := prepare_ok hc hprepare
    refine ⟨fun hother => (nomatch hother.symm.trans hsingle),
      fun _ => ⟨collected t c, rfl, htxn, fun p hp => ?_⟩⟩
    show p ∈ t.done.insertAll (asked t c).toList
    rcases PartitionSet.mem_union.mp hp with hold | hnew
    · exact PartitionSet.mem_insertAll.mpr (.inl (hdone p hold))
    · exact PartitionSet.mem_insertAll.mpr (.inr hnew)

/-- Where several partitions were predicted, a transaction that can commit has been
prepared; where a single one was, nothing has happened to it. -/
theorem verdict_ok (h : verdict t true = .ok (t', none)) :
    (t.admission.prediction.isSingle = true → t' = t)
      ∧ (t.admission.prediction.isSingle = false → ∃ o, prepare t = .ok (t', .ok o)) := by
  unfold verdict at h
  split at h
  -- Preparing is asked for where several partitions are predicted and no error stands against it.
  · next hasks =>
    have hseveral : t.admission.prediction.isSingle = false := by
      simp only [Bool.and_eq_true, Bool.not_eq_true'] at hasks
      exact hasks.2
    refine ⟨fun hsingle => (nomatch hsingle.symm.trans hseveral), fun _ => ?_⟩
    split at h
    · cases h
    · cases h
    · next hprepare =>
      cases h
      exact ⟨_, hprepare⟩
  · next hasks =>
    obtain ⟨rfl, hnone⟩ := Prod.mk.inj (Except.ok.inj h)
    refine ⟨fun _ => rfl, fun hseveral => absurd ?_ hasks⟩
    simp [hasFailed, hnone, hseveral]

end Prepare

/-! ### A transaction that is asked to prepare -/

section Coordination

variable {R : Type} [Scalar R] {s s' s'' : Site R} {a a' : Admitted R} {calls : List EngineCall}

/-- What can have happened to a transaction that may also be asked to prepare before it
finishes, with the calls of executors that were made for it. -/
inductive Coordinated : Site R → Admitted R → List EngineCall → Prop
  /-- The transaction is admitted. -/
  | begin {s s' : Site R} {a : Admitted R} {procedure : String} {args : List Value}
      {client : ClientHandle} (h : s.begin procedure args client = .ok (s', .ok a)) :
      Coordinated s' a []
  /-- The site does what does not concern the transaction. -/
  | elsewhere {s s' : Site R} {a : Admitted R} {calls : List EngineCall}
      (h : Coordinated s a calls) : Coordinated s' a calls
  /-- The transaction runs a batch, which may fail. -/
  | batch {s s' : Site R} {a a' : Admitted R} {tasks : List Task}
      {answer : Except TxnError (List ResultTable)} {calls more : List EngineCall}
      (h : Coordinated s a calls) (hbatch : s.execute a tasks = .ok (s', a', answer))
      (hmore : s'.journal = s.journal ++ more) : Coordinated s' a' (calls ++ more)
  /-- The transaction is asked to prepare, which may fail. -/
  | prepare {s : Site R} {a : Admitted R} {t : Transaction}
      {outcome : Except TxnError PrepareOutcome} {calls : List EngineCall}
      (h : Coordinated s a calls) (hprepare : Site.prepare a.txn = .ok (t, outcome)) :
      Coordinated s { a with txn := t } calls

/-- A transaction stays equipped over all its batches. -/
theorem Coordinated.equipped (h : Coordinated s a calls) : Equipped a.txn := by
  induction h with
  | begin h =>
    obtain ⟨admission, poolIdle, hstart⟩ := begin_ok h
    exact equipped_start hstart
  | elsewhere _ ih => exact ih
  | batch _ hbatch _ ih => exact ih.same (sameCallback_steps.execute hbatch)
  | prepare _ hprepare ih => exact ih.prepare hprepare

/-- All calls before the end run batches: no undo token is released or undone. This goes by what a
coordinator does with a transaction, of which only batches make calls at all. -/
theorem Coordinated.executes (h : Coordinated s a calls) :
    ∀ call ∈ calls, ∃ p b, call = .execute p b := by
  induction h with
  | begin _ => exact fun _ hcall => absurd hcall List.not_mem_nil
  | elsewhere _ ih => exact ih
  | batch _ hbatch hmore ih =>
    intro call hcall
    obtain ⟨calls', hcalls', hcases⟩ := execute_work hbatch
    obtain rfl := List.append_cancel_left (hmore.symm.trans hcalls')
    rcases List.mem_append.mp hcall with hold | hnew
    · exact ih call hold
    · rcases hcases with ⟨rfl, _⟩ | ⟨_, _, _, _, hall⟩
      · exact absurd hnew List.not_mem_nil
      · obtain ⟨task, _, _, b, hb, _⟩ := hall call hnew
        exact ⟨task.destination, b, hb⟩
  | prepare _ _ ih => exact ih

/-- A client that is told of a commit asked for one, and the undo token was released after
the transaction was found fit to commit. -/
theorem finish_committed {commit : Bool} {id : TxnId} {client : ClientHandle}
    {results : List ResultTable}
    (h : s.finish a commit = .ok (s', a', .committed id client results)) :
    ∃ t, commit = true ∧ verdict a.txn commit = .ok (t, none)
      ∧ s'.journal = s.journal ++ settlement t true := by
  unfold finish at h
  split at h
  · cases h
  · next t reason hverdict =>
    simp only at h
    split at h
    · cases h
    · next s₁ hclose =>
      have hjournal := closeForecast_journal hclose
      -- A rollback never answers that it has committed, nor does a commit with a reason against it.
      cases commit with
      | false => cases h
      | true =>
        cases reason with
        | some reason => cases h
        | none =>
          cases h
          exact ⟨t, rfl, hverdict, hjournal⟩

/-- When a client is told of a commit, the undo token of the transaction was released at
the partitions with fragments after the transaction was found fit to commit, and nothing
was settled before. By then all those partitions had acknowledged if and only if several
partitions were predicted. -/
theorem acknowledged_iff_several_predicted {commit : Bool} {id : TxnId} {client : ClientHandle}
    {results : List ResultTable} (h : Coordinated s a calls)
    (hfinish : s.finish a commit = .ok (s', a', .committed id client results)) :
    ∃ t, verdict a.txn commit = .ok (t, none)
      ∧ (∀ call ∈ calls, ∃ p b, call = .execute p b)
      ∧ s'.journal = s.journal ++ settlement t true
      ∧ ((∀ p ∈ executedPartitions a.txn, t.Acknowledged p)
          ↔ a.txn.admission.prediction.isSingle = false) := by
  obtain ⟨t, rfl, hverdict, hjournal⟩ := finish_committed hfinish
  have hequipped := h.equipped
  refine ⟨t, hverdict, h.executes, hjournal, fun hall => ?_, fun hseveral p hp => ?_⟩
  · -- The base partition would have acknowledged to a callback, and a single prediction has none.
    obtain ⟨_, c, hc, _⟩ := hall a.txn.admission.base (PartitionSet.mem_insert.mpr (.inl rfl))
    cases hsingle : a.txn.admission.prediction.isSingle with
    | false => rfl
    | true =>
      rw [(verdict_ok hverdict).1 hsingle, hequipped.single hsingle] at hc
      cases hc
  · -- The callback was ready, so that it had collected all that it expected.
    obtain ⟨o, hprepare⟩ := (verdict_ok hverdict).2 hseveral
    obtain ⟨c, hc, _⟩ := hequipped.several hseveral
    obtain ⟨ht, hready⟩ := prepare_ok hc hprepare
    have hacknowledged : p ∈ (collected a.txn c).acknowledged := hready o rfl p hp
    have hafter : t.admission.prediction.isSingle = false := by
      rw [ht]
      exact hseveral
    obtain ⟨c', hc', htxn, hdone⟩ := (hequipped.prepare hprepare).several hafter
    have hcollected : t.prepare = some (collected a.txn c) := by
      rw [ht]
      rfl
    obtain rfl := Option.some.inj (hc'.symm.trans hcollected)
    exact ⟨hdone p hacknowledged, _, hc', htxn, hacknowledged⟩

/-! ### Transfers between two partitions -/

/-- A call of a procedure that runs one batch and is to be committed: the transaction
before and after it finishes. -/
def callOnce (s : Site R) (procedure : String) (args : List Value) (tasks : List Task) :
    Option ((Site R × Admitted R) × Site R × Admitted R × Response) :=
  match s.begin procedure args 1 with
  | .ok (s, .ok a) =>
    match s.execute a tasks with
    | .ok (s, a, _) =>
      match s.finish a true with
      | .ok finished => some ((s, a), finished)
      | .error _ => none
    | .error _ => none
  | _ => none

/-- What calling a procedure once does, as a transaction of one batch with its finish. It connects a
run that can be evaluated with the steps that theorems are about. -/
theorem callOnce_ok {procedure : String} {args : List Value} {tasks : List Task}
    {response : Response}
    (h : callOnce s procedure args tasks = some ((s', a), s'', a', response)) :
    (∃ calls, Coordinated s' a calls) ∧ s'.finish a true = .ok (s'', a', response) := by
  unfold callOnce at h
  split at h
  · next hbegin =>
    split at h
    · next hbatch =>
      split at h
      · next hfinish =>
        cases h
        obtain ⟨calls, hcalls, _⟩ := execute_work hbatch
        exact ⟨⟨calls, (Coordinated.begin hbegin).batch hbatch hcalls⟩, hfinish⟩
      · cases h
    · cases h
  · cases h

end Coordination

/-- A procedure that moves an amount from one account to another. -/
def transferCatalog : Catalog :=
  ⟨2, [], [⟨0, "transfer", [⟨"from", false⟩, ⟨"to", false⟩], [⟨0, "debit", .update, [], []⟩,
    ⟨1, "credit", .update, [], []⟩], false, false, some 0⟩]⟩

/-- Accounts with an even number are kept at partition 0, the others at partition 1. -/
def accountHome : List Value → Nat
  | .int account :: _ => account.toNat % 2
  | _ => 0

def accountRouter : Router where
  partitions := 2
  base _ args := .ok (accountHome args)
  route _ _ args _ := .ok (.singleton (accountHome args))

/-- The graphs after a transfer from account 0 to account 2. -/
def localTransfers : GraphStore Rat :=
  match GraphStore.train ∅ transferCatalog accountRouter
    [⟨0, 0, [.int 0, .int 2], [⟨0, [.int 0], 0, false, none⟩, ⟨1, [.int 2], 0, false, none⟩],
      false⟩] with
  | .ok (store, _) => store
  | .error _ => ∅

/-- A site of two partitions with given graphs. -/
def transferSite (graphs : GraphStore Rat) : Site Rat :=
  { soloSite with
    config := .default
    catalog := transferCatalog
    router := accountRouter
    forecaster := some (.new transferCatalog accountRouter ∅ .default graphs)
    hosted := [0, 1] }

/-- The tasks of a transfer from account 0 to account 1. -/
def remoteTransfer : List Task :=
  [⟨1, 1, 0, [⟨100, 0, 0, none, some 10, [.int 0]⟩]⟩,
    ⟨2, 1, 1, [⟨200, 1, 1, none, some 20, [.int 1]⟩]⟩]

/-- Whether a client is told of a transfer that was committed at both partitions. -/
def commitsAtBoth (s s' : Site Rat) (a : Admitted Rat) : Response → Bool
  | .committed .. => (executedPartitions a.txn).toList = [0, 1]
      ∧ s'.journal = s.journal ++ [.release 0 1, .release 1 1]
  | .aborted .. => false

/-- A transfer that is seen to be committed at both partitions has come about step by step. It is
used for two sites, one of which predicts a single partition and the other does not. -/
theorem coordinated_of_commitsAtBoth (graphs : GraphStore Rat) (isSingle : Bool)
    (h : (callOnce (transferSite graphs) "transfer" [.int 0, .int 1] remoteTransfer).any
      (fun ((s, a), s', _, response) => commitsAtBoth s s' a response
        && a.txn.admission.prediction.isSingle == isSingle) = true) :
    ∃ (s s' : Site Rat) (a a' : Admitted Rat) (calls : List EngineCall) (id : TxnId)
      (client : ClientHandle) (results : List ResultTable),
      Coordinated s a calls ∧ s.finish a true = .ok (s', a', .committed id client results)
        ∧ (executedPartitions a.txn).toList = [0, 1]
        ∧ s'.journal = s.journal ++ [.release 0 1, .release 1 1]
        ∧ a.txn.admission.prediction.isSingle = isSingle := by
  -- The run was evaluated. That it is one of the service is by its steps.
  obtain ⟨⟨⟨s, a⟩, s', a', response⟩, hcall, hseen⟩ := (Option.any_eq_true _ _).mp h
  obtain ⟨⟨calls, hcalls⟩, hfinish⟩ := callOnce_ok hcall
  rw [Bool.and_eq_true, beq_iff_eq] at hseen
  obtain ⟨hcommits, hpredicted⟩ := hseen
  cases response with
  | aborted _ _ _ => cases hcommits
  | committed id client results =>
    obtain ⟨hexecuted, hjournal⟩ := of_decide_eq_true hcommits
    exact ⟨s, s', a, a', calls, id, client, results, hcalls, hfinish, hexecuted, hjournal,
      hpredicted⟩

/-- Without graphs both partitions are predicted, and both acknowledge. -/
theorem acknowledged_iff_several_predicted_no_graphs :
    ∃ (s s' : Site Rat) (a a' : Admitted Rat) (calls : List EngineCall) (id : TxnId)
      (client : ClientHandle) (results : List ResultTable) (t : Transaction),
      Coordinated s a calls ∧ s.finish a true = .ok (s', a', .committed id client results)
        ∧ (executedPartitions a.txn).toList = [0, 1] ∧ verdict a.txn true = .ok (t, none)
        ∧ ∀ p ∈ executedPartitions a.txn, t.Acknowledged p := by
  obtain ⟨s, s', a, a', calls, id, client, results, hcalls, hfinish, hexecuted, _, hseveral⟩ :=
    coordinated_of_commitsAtBoth ∅ false (by decide +kernel)
  obtain ⟨t, hverdict, _, _, hiff⟩ := acknowledged_iff_several_predicted hcalls hfinish
  exact ⟨s, s', a, a', calls, id, client, results, t, hcalls, hfinish, hexecuted, hverdict,
    hiff.mpr hseveral⟩

/-- After a transfer within partition 0 no other partition is predicted. The next transfer
is committed at both partitions, and neither has acknowledged. -/
theorem transfer_unprepared :
    ∃ (s s' : Site Rat) (a a' : Admitted Rat) (calls : List EngineCall) (id : TxnId)
      (client : ClientHandle) (results : List ResultTable) (t : Transaction),
      Coordinated s a calls ∧ s.finish a true = .ok (s', a', .committed id client results)
        ∧ (executedPartitions a.txn).toList = [0, 1]
        ∧ s'.journal = s.journal ++ [.release 0 1, .release 1 1]
        ∧ verdict a.txn true = .ok (t, none) ∧ ∀ p, ¬ t.Acknowledged p := by
  obtain ⟨s, s', a, a', calls, id, client, results, hcalls, hfinish, hexecuted, hjournal,
    hsingle⟩ := coordinated_of_commitsAtBoth localTransfers true (by decide +kernel)
  obtain ⟨t, _, hverdict, _⟩ := finish_committed hfinish
  refine ⟨s, s', a, a', calls, id, client, results, t, hcalls, hfinish, hexecuted, hjournal,
    hverdict, ?_⟩
  rintro p ⟨_, c, hc, _⟩
  -- Nothing happens to the transaction between its batch and the release.
  rw [(verdict_ok hverdict).1 hsingle, hcalls.equipped.single hsingle] at hc
  cases hc

end Site

end TxnPath
