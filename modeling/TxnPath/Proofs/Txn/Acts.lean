import TxnPath.Proofs.Txn.Conservation

/-!
# `TxnPath.Proofs.Txn.Acts`: everything that can be done to a transaction

`Transaction.Act` lists all that the interface of a transaction offers: the operations
that keep the books, and the two that begin and end a round without them.

An error is kept in two fields. The one that waits to be reported is taken by whoever waits
next; the wording of the first one stays. `Act.run_cases` says what an act does to them: it
records nothing (`Passes`), or it is the act that records the first error (`Fails`). What
no act takes away from a transaction is `Continues`.
-/

set_option autoImplicit false

namespace TxnPath.Transaction

/-- Something that is done to a transaction. -/
inductive Act where
  /-- An operation that keeps the books. -/
  | booked (op : Operation)
  /-- A round begins at a partition without the books. -/
  | fastInitRound (p undoToken : Nat)
  /-- A round ends at a partition without the books. -/
  | fastFinishRound (p : Nat)

namespace Act

/-- The state that an act leaves behind. -/
def run (t : Transaction) : Act → Except Fault Transaction
  | .booked op => op.run t
  | .fastInitRound p undoToken => t.fastInitRound p undoToken
  | .fastFinishRound p => t.fastFinishRound p

/-- The act records an error, or it is a wait that ends with one. -/
def Records (t : Transaction) (act : Act) (e : TxnError) : Prop :=
  act = .booked (.fail e)
    ∨ ∃ timeout, act = .booked (.wait timeout) ∧ (t.wait timeout).2 = .failed e

end Act

variable {t t' t'' : Transaction} {p : Nat} {e : TxnError}

/-! ### What an act does to the errors -/

/-- The second transaction is admitted like the first, lists the same partitions, and has
no error that the first does not have. -/
structure Passes (t t' : Transaction) : Prop where
  admission : t'.admission = t.admission
  partitions : t'.phases.map Prod.fst = t.phases.map Prod.fst
  abortReason : t'.abortReason = t.abortReason
  pendingError : t'.pendingError = t.pendingError ∨ t'.pendingError = none

/-- The second transaction is the first one with its first error recorded, which may have
been reported already. -/
structure Fails (e : TxnError) (t t' : Transaction) : Prop where
  admission : t'.admission = t.admission
  partitions : t'.phases.map Prod.fst = t.phases.map Prod.fst
  fresh : t.abortReason = none
  abortReason : t'.abortReason = some e.message
  pendingError : t'.pendingError = some e ∨ t'.pendingError = none

/-- Doing nothing records no error. -/
theorem Passes.refl (t : Transaction) : Passes t t := ⟨rfl, rfl, rfl, .inl rfl⟩

/-- Two steps that record no error record none together. If both take the error that waits, the
second finds none. -/
theorem Passes.trans (h : Passes t t') (h' : Passes t' t'') : Passes t t'' := by
  refine ⟨h'.admission.trans h.admission, h'.partitions.trans h.partitions,
    h'.abortReason.trans h.abortReason, ?_⟩
  rcases h'.pendingError with hsame | hnone
  · rw [hsame]
    exact h.pendingError
  · exact .inr hnone

/-- Replacing a phase leaves which partitions are listed. -/
theorem map_fst_replacePhase (p : Nat) (phase : Phase) (phases : List (Nat × Phase)) :
    (replacePhase p phase phases).map Prod.fst = phases.map Prod.fst := by
  induction phases with
  | nil => rfl
  | cons e rest ih =>
    obtain ⟨q, old⟩ := e
    simp only [replacePhase]
    split
    · rfl
    · rw [List.map_cons, List.map_cons, ih]

/-- Moving a phase records no error. -/
theorem passes_setPhase (t : Transaction) (p : Nat) (phase : Phase) :
    Passes t (t.setPhase p phase) :=
  ⟨rfl, map_fst_replacePhase p phase t.phases, rfl, .inl rfl⟩

/-- Opening a round records no error. -/
theorem passes_initRound {token : Nat} (h : t.initRound p token = .ok t') : Passes t t' := by
  obtain ⟨_, _, _, _, ⟨_, rfl⟩ | ⟨_, rfl⟩⟩ := initRound_ok h
  · exact ⟨rfl, (passes_setPhase t p _).partitions, rfl, .inl rfl⟩
  · exact ⟨rfl, (passes_setPhase (t.setRound .empty) p _).partitions, rfl, .inl rfl⟩

/-- Starting a round reads whether an error is recorded and records none. -/
theorem passes_startRound (h : t.startRound p = .ok t') : Passes t t' := by
  obtain ⟨_, ⟨_, rfl⟩ | ⟨_, _, _, rfl⟩⟩ := startRound_ok h
  · exact passes_setPhase t p _
  · exact ⟨rfl, (passes_setPhase t p _).partitions, rfl, .inl rfl⟩

/-- Finishing a round records no error. -/
theorem passes_finishRound (h : t.finishRound p = .ok t') : Passes t t' := by
  obtain ⟨_, _, _, ⟨_, rfl⟩ | ⟨_, rfl⟩⟩ := finishRound_ok h
  · exact passes_setPhase t p _
  · exact ⟨rfl, (passes_setPhase t p _).partitions, rfl, .inl rfl⟩

/-- Adding a task records no error. -/
theorem passes_addTask {task : Task} {isBlocked : Bool}
    (h : t.addTask task = .ok (t', isBlocked)) : Passes t t' := by
  obtain ⟨_, _, _, _, _, rfl⟩ := addTask_ok h
  exact ⟨rfl, rfl, rfl, .inl rfl⟩

/-- A result that comes in records no error, also where it is dropped. -/
theorem passes_addResult {x : Delivery} (h : t.addResult x = .ok t') : Passes t t' := by
  rcases addResult_ok h with ⟨_, rfl⟩ | ⟨_, ⟨_, _, _, rfl⟩ | ⟨_, _, _, rfl⟩⟩
  · exact .refl _
  · exact ⟨rfl, rfl, rfl, .inl rfl⟩
  · exact ⟨rfl, rfl, rfl, .inl rfl⟩

/-- Taking inputs records no error. -/
theorem passes_takeInputs {task : Task} {taken : List (DependencyId × List ResultTable)}
    (h : t.takeInputs task = .ok (t', taken)) : Passes t t' := by
  obtain ⟨_, _, rfl⟩ := takeInputs_ok h
  exact ⟨rfl, rfl, rfl, .inl rfl⟩

/-- Acknowledging a prepare records no error. -/
theorem passes_acknowledgePrepare {partitions : PartitionSet}
    (h : t.acknowledgePrepare partitions = .ok t') : Passes t t' := by
  unfold acknowledgePrepare at h
  split at h
  · cases h
    exact .refl _
  · obtain ⟨_, _, rfl⟩ := Outcome.map_ok h
    exact ⟨rfl, rfl, rfl, .inl rfl⟩

/-- Taking the error that waits leaves its wording. -/
theorem passes_takeError (t : Transaction) : Passes t t.takeError.1 :=
  ⟨rfl, rfl, rfl, .inr rfl⟩

/-- Finishing records no error. -/
theorem passes_finish (t : Transaction) : Passes t t.finish := by
  refine ⟨rfl, ?_, rfl, .inr rfl⟩
  show (t.phases.map fun e => (e.1, Phase.uninitialized)).map Prod.fst = _
  rw [List.map_map]
  rfl

/-- A transaction that has failed records no further error. -/
theorem fail_of_hasFailed (h : t.hasFailed = true) (e : TxnError) : t.fail e = t := by
  rw [fail, if_pos h]

/-- The first error is kept, and opens the latch. -/
theorem fail_of_open (h : t.abortReason = none) (e : TxnError) :
    t.fail e = { t with
      abortReason := some e.message
      pendingError := some e
      round := { t.round with latch := t.round.latch.map Latch.releaseAll } } := by
  have hopen : ¬ t.hasFailed = true := by
    rw [hasFailed, h]
    exact Bool.false_ne_true
  rw [fail, if_neg hopen]

/-- An error is recorded if it is the first, and dropped otherwise. -/
theorem fail_cases (t : Transaction) (e : TxnError) : t.fail e = t ∨ Fails e t (t.fail e) := by
  cases h : t.abortReason with
  | none =>
    rw [fail_of_open h]
    exact .inr ⟨rfl, rfl, h, rfl, .inl rfl⟩
  | some reason => exact .inl (fail_of_hasFailed (Option.isSome_iff_exists.mpr ⟨_, h⟩) e)

/-- Waiting records nothing, or it reports the time-out that it has recorded as the first error. -/
theorem wait_cases (t : Transaction) (timeout : Option Nat) :
    Passes t (t.wait timeout).1
      ∨ ∃ e, (t.wait timeout).2 = .failed e ∧ Fails e t (t.wait timeout).1 := by
  rcases wait_eq t timeout with hsame | ⟨e, htimeout, hfailed⟩
  · rw [hsame]
    exact .inl (passes_takeError t)
  · -- The wait runs out. It records this error and hands it out in one go.
    rw [htimeout]
    rcases fail_cases t.takeError.1 e with hsame | hfails
    · rw [hsame]
      exact .inl ⟨rfl, rfl, rfl, .inr rfl⟩
    · exact .inr ⟨e, hfailed, hfails.admission, hfails.partitions, hfails.fresh,
        hfails.abortReason, .inr rfl⟩

/-- An act records nothing, or it records the first error. There are two that can record one:
failing, and waiting until the time is over. All others pass, at whatever phase and whether or not
an error is there already. -/
theorem Act.run_cases {act : Act} (h : act.run t = .ok t') :
    Passes t t' ∨ ∃ e, act.Records t e ∧ Fails e t t' := by
  cases act with
  | fastInitRound p token =>
    obtain ⟨_, _, rfl⟩ := Outcome.map_ok h
    exact .inl ⟨rfl, (passes_setPhase t p _).partitions, rfl, .inl rfl⟩
  | fastFinishRound p =>
    obtain ⟨_, _, rfl⟩ := Outcome.map_ok h
    exact .inl (passes_setPhase t p _)
  | booked op =>
    cases op with
    | fail e =>
      cases h
      rcases fail_cases t e with hsame | hfails
      · rw [hsame]
        exact .inl (.refl t)
      · exact .inr ⟨e, .inl rfl, hfails⟩
    | wait timeout =>
      cases h
      rcases wait_cases t timeout with hpasses | ⟨e, hfailed, hfails⟩
      · exact .inl hpasses
      · exact .inr ⟨e, .inr ⟨timeout, rfl, hfailed⟩, hfails⟩
    | initRound p token => exact .inl (passes_initRound h)
    | startRound p => exact .inl (passes_startRound h)
    | finishRound p => exact .inl (passes_finishRound h)
    | addTask task =>
      obtain ⟨_, hadd, rfl⟩ := Outcome.map_ok h
      exact .inl (passes_addTask hadd)
    | addResult x => exact .inl (passes_addResult h)
    | takeInputs task =>
      obtain ⟨_, htake, rfl⟩ := Outcome.map_ok h
      exact .inl (passes_takeInputs htake)
    | readResults =>
      obtain ⟨_, _, rfl⟩ := Outcome.map_ok h
      exact .inl (.refl _)
    | acknowledgePrepare partitions => exact .inl (passes_acknowledgePrepare h)
    | takeError => cases h; exact .inl (passes_takeError t)
    | finish => cases h; exact .inl (passes_finish t)
    -- The others write neither phases nor errors.
    | setBatchSize | takeUnblocked | markDone | expectPrepare | refusePrepare | setLastResults
    | takeLastResults => cases h; exact .inl ⟨rfl, rfl, rfl, .inl rfl⟩

/-! ### What no act takes away -/

/-- The second transaction is admitted like the first and lists the same partitions. The
first error recorded against that one is the first error of this one. -/
structure Continues (t t' : Transaction) : Prop where
  admission : t'.admission = t.admission
  partitions : t'.phases.map Prod.fst = t.phases.map Prod.fst
  abortReason : ∀ reason, t.abortReason = some reason → t'.abortReason = some reason

/-- A transaction continues itself. -/
theorem Continues.refl (t : Transaction) : Continues t t := ⟨rfl, rfl, fun _ h => h⟩

/-- What continues a continuation continues the transaction. -/
theorem Continues.trans (h : Continues t t') (h' : Continues t' t'') : Continues t t'' :=
  ⟨h'.admission.trans h.admission, h'.partitions.trans h.partitions,
    fun reason hreason => h'.abortReason reason (h.abortReason reason hreason)⟩

/-- A step that records nothing takes nothing away. -/
theorem Passes.continues (h : Passes t t') : Continues t t' :=
  ⟨h.admission, h.partitions, fun _ hreason => h.abortReason.trans hreason⟩

/-- A step that records the first error takes nothing away, as there was no wording before. -/
theorem Fails.continues (h : Fails e t t') : Continues t t' :=
  ⟨h.admission, h.partitions, fun _ hreason => nomatch h.fresh.symm.trans hreason⟩

/-- Recording an error takes nothing away: the first wording stays. -/
theorem continues_fail (t : Transaction) (e : TxnError) : Continues t (t.fail e) := by
  rcases fail_cases t e with hsame | hfails
  · rw [hsame]
    exact .refl t
  · exact hfails.continues

/-- Waiting takes nothing away. -/
theorem continues_wait (t : Transaction) (timeout : Option Nat) :
    Continues t (t.wait timeout).1 := by
  rcases wait_cases t timeout with hpasses | ⟨_, _, hfails⟩
  · exact hpasses.continues
  · exact hfails.continues

/-- No act takes away the admission, the hosted partitions, or a wording that is there. -/
theorem Act.continues {act : Act} (h : act.run t = .ok t') : Continues t t' := by
  rcases act.run_cases h with hpasses | ⟨_, _, hfails⟩
  · exact hpasses.continues
  · exact hfails.continues

/-! ### The error to report and the first error -/

/-- An error that waits to be reported is the first error. -/
def Reported (t : Transaction) : Prop :=
  ∀ e, t.pendingError = some e → t.abortReason = some e.message

/-- What was reported stays so where nothing is recorded. -/
theorem Reported.passes (h : t.Reported) (hpasses : Passes t t') : t'.Reported := by
  intro e he
  rcases hpasses.pendingError with hsame | hnone
  · exact hpasses.abortReason.trans (h e (hsame.symm.trans he))
  · rw [hnone] at he
    cases he

/-- An error that has just been recorded can be reported with its wording. -/
theorem Fails.reported (h : Fails e t t') : t'.Reported := by
  intro e' he'
  rcases h.pendingError with hsome | hnone
  · rw [← Option.some.inj (hsome.symm.trans he')]
    exact h.abortReason
  · rw [hnone] at he'
    cases he'

/-- Whatever is done, an error that waits to be reported has its wording recorded. -/
theorem Reported.act {act : Act} (h : t.Reported) (hact : act.run t = .ok t') :
    t'.Reported := by
  rcases act.run_cases hact with hpasses | ⟨_, _, hfails⟩
  · exact h.passes hpasses
  · exact hfails.reported

/-- A transaction begins without errors. -/
theorem reported_start {a : Admission} {poolIdle : Nat}
    (h : Transaction.start a poolIdle = .ok t) : t.Reported := by
  intro e he
  rw [(start_ok h).2.2.1] at he
  cases he

/-- An error that waits to be reported has been recorded. -/
theorem Reported.hasFailed (h : t.Reported) (hpending : t.pendingError.isSome = true) :
    t.hasFailed = true := by
  obtain ⟨e, he⟩ := Option.isSome_iff_exists.mp hpending
  exact Option.isSome_iff_exists.mpr ⟨_, h e he⟩

/-! ### The partitions of a transaction -/

/-- The transaction lists the partitions that its site hosts, its base partition among
them. -/
structure Hosts (t : Transaction) : Prop where
  partitions : t.phases.map Prod.fst = t.admission.hosted
  base : t.isLocal t.admission.base = true

/-- The hosted partitions of a transaction are never changed. -/
theorem Hosts.continues (h : t.Hosts) (hcontinues : Continues t t') : t'.Hosts where
  partitions := by
    rw [hcontinues.partitions, hcontinues.admission]
    exact h.partitions
  base := by
    rw [isLocal, hcontinues.admission]
    exact h.base

/-- A transaction begins with a phase for every partition that it hosts, among which is its base. It
does not begin at all if its base is hosted elsewhere. -/
theorem hosts_start {a : Admission} {poolIdle : Nat}
    (h : Transaction.start a poolIdle = .ok t) : t.Hosts := by
  -- The phases are listed partition by partition.
  have hlisted : (a.hosted.map fun p => (p, Phase.uninitialized)).map Prod.fst = a.hosted := by
    rw [List.map_map]
    exact List.map_id a.hosted
  unfold Transaction.start at h
  split at h
  · cases h
  · split at h
    · cases h
    · next hbase =>
      have hbase : a.hosted.contains a.base = true := by simpa using hbase
      split at h
      · cases h
        exact ⟨hlisted, hbase⟩
      · obtain ⟨callback, _, rfl⟩ := Outcome.map_ok h
        exact ⟨hlisted, hbase⟩

/-- A hosted partition is in some phase. -/
theorem Hosts.phase (h : t.Hosts) (hlocal : t.isLocal p = true) :
    ∃ phase, t.phase p = .ok phase := by
  -- `isLocal` reads the admission, `phase` the list of phases. They name the same partitions.
  have hmem : p ∈ t.phases.map Prod.fst := by
    rw [h.partitions]
    exact List.contains_iff_mem.mp hlocal
  obtain ⟨phase, hlookup⟩ : ∃ phase, t.phases.lookup p = some phase := by
    rw [← Option.isSome_iff_exists, List.lookup_isSome_iff]
    obtain ⟨e, he, rfl⟩ := List.mem_map.mp hmem
    exact ⟨e, he, beq_self_eq_true _⟩
  exact ⟨phase, phase_of_lookup hlookup⟩

end TxnPath.Transaction
