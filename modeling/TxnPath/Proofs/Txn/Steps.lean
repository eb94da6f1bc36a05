import TxnPath.Proofs.Outcome
import TxnPath.Proofs.Txn.RoundSteps
import TxnPath.Txn.Steps

/-!
# `TxnPath.Proofs.Txn.Steps`: what each step does to a transaction

A step of a transaction either stops with a fault or moves the phase of one partition
and the books of the round. For each step that can fail, one statement says under which
conditions it went on and which fields it replaced (`initRound_ok`, `startRound_ok`,
`finishRound_ok`, `addTask_ok`, `addResult_ok`, `takeInputs_ok`); `wait_eq` names the
states in which a wait ends.

Most steps of a round leave alone what the transaction has done and which errors it has;
`SameWork` and `SameErrors` say so.
-/

set_option autoImplicit false

namespace TxnPath.Transaction

variable {t t' : Transaction} {p q : Nat}

/-! ### Phases -/

/-- The phase of a partition is looked up behind those of others. -/
theorem lookup_cons_of_ne {k : Nat} (phase : Phase) (rest : List (Nat × Phase)) (h : q ≠ k) :
    ((k, phase) :: rest).lookup q = rest.lookup q := by
  have hbeq : (q == k) = false := by simpa using h
  rw [List.lookup_cons, hbeq]

/-- Replacing the phase of a listed partition is seen there and nowhere else. Should a partition be
listed twice then its first entry is replaced, which is the one that is looked up. -/
theorem lookup_replacePhase {old : Phase} (new : Phase) {phases : List (Nat × Phase)}
    (h : phases.lookup p = some old) (q : Nat) :
    (replacePhase p new phases).lookup q = if q = p then some new else phases.lookup q := by
  induction phases with
  | nil => cases h
  | cons e rest ih =>
    obtain ⟨k, phase⟩ := e
    by_cases hk : k = p
    -- The partition is listed first: its phase is replaced here, and the rest is not looked at.
    · subst hk
      simp only [replacePhase, if_true]
      by_cases hq : q = k
      · subst hq; simp
      · rw [if_neg hq, lookup_cons_of_ne new rest hq, lookup_cons_of_ne phase rest hq]
    · rw [lookup_cons_of_ne phase rest (Ne.symm hk)] at h
      simp only [replacePhase, if_neg hk]
      by_cases hq : q = k
      · subst hq; simp [hk]
      · rw [lookup_cons_of_ne phase _ hq, lookup_cons_of_ne phase rest hq, ih h]

/-- A partition whose phase can be asked for is listed with it. -/
theorem lookup_of_phase {phase : Phase} (h : t.phase p = .ok phase) :
    t.phases.lookup p = some phase := by
  unfold Transaction.phase at h
  split at h
  · next hl => cases h; exact hl
  · cases h

/-- Conversely, the phase of a listed partition can be asked for. -/
theorem phase_of_lookup {phase : Phase} (h : t.phases.lookup p = some phase) :
    t.phase p = .ok phase := by
  simp [Transaction.phase, h]

/-- A phase is read off the phases. -/
theorem phase_congr (hphases : t'.phases = t.phases) (hadmission : t'.admission = t.admission)
    (p : Nat) : t'.phase p = t.phase p := by
  unfold phase fault
  rw [hphases, hadmission]

/-- Setting the phase of a hosted partition is seen there and nowhere else. -/
theorem phase_setPhase {old : Phase} (h : t.phase p = .ok old) (new : Phase) (q : Nat) :
    (t.setPhase p new).phase q = if q = p then .ok new else t.phase q := by
  have hl := lookup_replacePhase new (lookup_of_phase h) q
  by_cases hq : q = p
  · rw [if_pos hq] at hl ⊢
    exact phase_of_lookup hl
  · rw [if_neg hq] at hl ⊢
    have hphases : (t.setPhase p new).phases.lookup q = t.phases.lookup q := hl
    rw [phase, phase, hphases]
    rfl

/-- A phase that was set is the one that is read. -/
theorem phase_setPhase_self {old : Phase} (h : t.phase p = .ok old) (new : Phase) :
    (t.setPhase p new).phase p = .ok new := by
  rw [phase_setPhase h, if_pos rfl]

/-- Setting one partition's phase leaves those of the others. -/
theorem phase_setPhase_of_ne {old : Phase} (h : t.phase p = .ok old) (new : Phase) {q : Nat}
    (hne : p ≠ q) : (t.setPhase p new).phase q = t.phase q := by
  rw [phase_setPhase h, if_neg (Ne.symm hne)]

/-- A partition is in one phase at a time. -/
theorem phase_unique {a b : Phase} (h : t.phase p = .ok a) (h' : t.phase p = .ok b) : a = b :=
  Except.ok.inj (h.symm.trans h')

/-! ### Steps of a round -/

/-- A transaction is admitted with empty books, idle partitions, no error, and no partition
touched. -/
theorem start_ok {a : Admission} {poolIdle : Nat}
    (h : Transaction.start a poolIdle = .ok t) :
    t.round = .empty ∧ (∀ e ∈ t.phases, e.2 = .uninitialized) ∧ t.pendingError = none
      ∧ t.touched = .empty a.partitions := by
  -- No phase has begun, whether or not an undo log or a callback has to be set up.
  have hidle : ∀ e ∈ a.hosted.map fun p => (p, Phase.uninitialized), e.2 = .uninitialized := by
    intro e he
    obtain ⟨p, _, rfl⟩ := List.mem_map.mp he
    rfl
  unfold Transaction.start at h
  split at h
  · cases h
  · split at h
    · cases h
    · split at h
      · cases h
        exact ⟨rfl, hidle, rfl, rfl⟩
      · obtain ⟨callback, _, rfl⟩ := Outcome.map_ok h
        exact ⟨rfl, hidle, rfl, rfl⟩

/-- A round begins at an idle partition while no result is queued. At the base partition
the books are cleared. -/
theorem initRound_ok {token : Nat} (h : t.initRound p token = .ok t') :
    ∃ phase, t.phase p = .ok phase ∧ phase.isIdle = true ∧ t.round.queued = []
      ∧ (p ≠ t.admission.base
          ∧ t' = { t.setPhase p .initialized with undoToken := some token }
        ∨ p = t.admission.base
          ∧ t' = { (t.setRound .empty).setPhase p .initialized with
              undoToken := some token }) := by
  unfold initRound at h
  split at h
  · cases h
  · next phase hphase =>
    split at h
    · cases h
    · next hqueued =>
      split at h
      · cases h
      · next hidle =>
        refine ⟨phase, hphase, by simpa using hidle, by simpa using hqueued, ?_⟩
        -- The guards are passed. What is written depends on whether this is the base partition.
        by_cases hbase : p = t.admission.base
        · simp only [if_pos hbase] at h
          cases h
          exact .inr ⟨hbase, rfl⟩
        · simp only [if_neg hbase] at h
          cases h
          exact .inl ⟨hbase, rfl⟩

/-- A round starts where one has begun. At the base partition the books are started, which takes in
what is queued and arms the latch; at another partition only the phase moves. -/
theorem startRound_ok (h : t.startRound p = .ok t') :
    t.phase p = .ok .initialized
      ∧ (p ≠ t.admission.base ∧ t' = t.setPhase p .started
        ∨ p = t.admission.base
          ∧ ∃ r, t.round.start t.admission.txn t.pendingError.isSome = .ok r
            ∧ t' = (t.setPhase p .started).setRound r) := by
  unfold startRound at h
  split at h
  · cases h
  · next phase hphase =>
    split at h
    · cases h
    · next hinit =>
      have hinit : phase = .initialized := by simpa using hinit
      subst hinit
      refine ⟨hphase, ?_⟩
      by_cases hbase : p = t.admission.base
      -- At the base partition the round starts with it; elsewhere only the phase moves.
      · subst hbase
        right
        simp only [ne_eq, not_true_eq_false, if_false, setPhase] at h
        obtain ⟨r, hr, rfl⟩ := Outcome.map_ok h
        exact ⟨rfl, r, hr, rfl⟩
      · left
        have hne : p ≠ (t.setPhase p .started).admission.base := hbase
        simp only [if_pos hne] at h
        cases h
        exact ⟨hbase, rfl⟩

/-- A round ends where one has started, once every result is in. At the base partition
its latch, which must be open, is put away. -/
theorem finishRound_ok (h : t.finishRound p = .ok t') :
    t.phase p = .ok .started ∧ t.round.expected = t.round.received ∧ t.round.queued = []
      ∧ (p ≠ t.admission.base ∧ t' = t.setPhase p .finished
        ∨ p = t.admission.base ∧ t' = { t.setPhase p .finished with
            round := { t.round with latch := none } }) := by
  unfold finishRound at h
  split at h
  · cases h
  · next phase hphase =>
    split at h
    · cases h
    · next hcounters =>
      split at h
      · cases h
      · next hqueued =>
        split at h
        · cases h
        · next hstarted =>
          have hstarted : phase = .started := by simpa using hstarted
          subst hstarted
          refine ⟨hphase, by simpa using hcounters, by simpa using hqueued, ?_⟩
          -- The base partition alone has a latch, which must have been set and is closed.
          by_cases hbase : p = t.admission.base
          · subst hbase
            right
            have hself :
                ¬ t.admission.base ≠ (t.setPhase t.admission.base .finished).admission.base :=
              not_not_intro rfl
            simp only [if_neg hself] at h
            split at h
            · cases h
              exact ⟨rfl, rfl⟩
            · cases h
          · left
            have hne : p ≠ (t.setPhase p .finished).admission.base := hbase
            simp only [if_pos hne] at h
            cases h
            exact ⟨hbase, rfl⟩

/-- A task is added while the round at the base partition is open for work. Its destination need not
be the base: it is only counted there. -/
theorem addTask_ok {task : Task} {isBlocked : Bool}
    (h : t.addTask task = .ok (t', isBlocked)) :
    t.phase t.admission.base = .ok .initialized
      ∧ ∃ touched r, t.touched.add? task.destination task.fragments.length = .ok touched
        ∧ t.round.addTask task = .ok (r, isBlocked)
        ∧ t' = { t with touched := touched }.setRound r := by
  unfold addTask at h
  split at h
  · cases h
  · next phase hphase =>
    split at h
    · cases h
    · next hinit =>
      have hinit : phase = .initialized := by simpa using hinit
      subst hinit
      split at h
      · cases h
      -- The task is counted before it is registered.
      · next touched htouched =>
        split at h
        · cases h
        · next r blocked hr =>
          cases h
          exact ⟨hphase, touched, r, htouched, hr, rfl⟩

/-- A result is dropped by a transaction that has failed or is finished, queued before
the round starts, and taken in afterwards. -/
theorem addResult_ok {x : Delivery} (h : t.addResult x = .ok t') :
    ((t.isFinished || t.hasFailed) = true ∧ t' = t)
      ∨ ((t.isFinished || t.hasFailed) = false
        ∧ ((t.phase t.admission.base = .ok .initialized
            ∧ ∃ r, t.round.enqueue x = .ok r ∧ t' = t.setRound r)
          ∨ (t.phase t.admission.base = .ok .started
            ∧ ∃ r, t.round.accept t.admission.txn x = .ok r ∧ t' = t.setRound r))) := by
  unfold addResult at h
  split at h
  · cases h
  · next phase hphase =>
    split at h
    · next hclosed =>
      cases h
      exact .inl ⟨hclosed, rfl⟩
    · next hopen =>
      refine .inr ⟨by simpa using hopen, ?_⟩
      -- Before the round starts results are queued, afterwards taken in; in any other phase they
      -- are a fault.
      split at h
      · split at h
        · cases h
        · next r hr =>
          cases h
          exact .inl ⟨hphase, r, hr, rfl⟩
      · obtain ⟨r, hr, rfl⟩ := Outcome.map_ok h
        exact .inr ⟨hphase, r, hr, rfl⟩
      · cases h
      · cases h

/-- Taking a task's inputs changes the books of the round and nothing else of the transaction. -/
theorem takeInputs_ok {task : Task} {taken : List (DependencyId × List ResultTable)}
    (h : t.takeInputs task = .ok (t', taken)) :
    ∃ r, Round.takeInputs t.admission.txn t.admission.base task.id t.round [] task.fragments
        = .ok (r, taken) ∧ t' = t.setRound r := by
  obtain ⟨⟨r, taken'⟩, hr, hpair⟩ := Outcome.map_ok h
  obtain ⟨rfl, rfl⟩ := Prod.mk.inj hpair
  exact ⟨r, hr, rfl⟩

/-- A wait takes the error to report. One that times out also records its own, and takes it back to
report it. -/
theorem wait_eq (t : Transaction) (timeout : Option Nat) :
    (t.wait timeout).1 = t.takeError.1
      ∨ ∃ e, (t.wait timeout).1 = (t.takeError.1.fail e).takeError.1
        ∧ (t.wait timeout).2 = .failed e := by
  unfold wait takeError
  cases t.pendingError with
  | some e => exact .inl rfl
  | none =>
    simp only
    cases t.round.latch with
    | none => exact .inl rfl
    | some latch =>
      simp only
      -- Whether the latch opens or never will, what is pending is reported. Only a time-out adds an
      -- error of its own first.
      cases latch.wait timeout with
      | ready => exact .inl rfl
      | never => exact .inl rfl
      | timedOut => exact .inr ⟨_, rfl, rfl⟩

/-- A wait that ends because the results are there leaves no error to report. -/
theorem eq_of_wait_ready {timeout : Option Nat} (h : t.wait timeout = (t', .ready)) :
    t' = t.takeError.1 := by
  rcases wait_eq t timeout with hsame | ⟨e, _, hfailed⟩
  · rw [h] at hsame
    exact hsame
  · rw [h] at hfailed
    cases hfailed

/-! ### What the steps of a round leave alone -/

/-- The second transaction is admitted like the first, and has run its fragments at the
same partitions under the same undo token. -/
structure SameWork (t t' : Transaction) : Prop where
  admission : t'.admission = t.admission
  undoToken : t'.undoToken = t.undoToken
  touched : t'.touched = t.touched

/-- The second transaction has the errors of the first, and is finished if that one is. Operations
on the round and on its tasks leave these alone. -/
structure SameErrors (t t' : Transaction) : Prop where
  pendingError : t'.pendingError = t.pendingError
  abortReason : t'.abortReason = t.abortReason
  isFinished : t'.isFinished = t.isFinished

/-- Doing nothing leaves what was done. -/
theorem SameWork.refl (t : Transaction) : SameWork t t := ⟨rfl, rfl, rfl⟩

/-- What two steps leave alone, both leave alone together. -/
theorem SameWork.trans {t t' t'' : Transaction} (h : SameWork t t') (h' : SameWork t' t'') :
    SameWork t t'' :=
  ⟨h'.1.trans h.1, h'.2.trans h.2, h'.3.trans h.3⟩

/-- Doing nothing leaves the errors. -/
theorem SameErrors.refl (t : Transaction) : SameErrors t t := ⟨rfl, rfl, rfl⟩

/-- Two steps that leave the errors alone do so together. -/
theorem SameErrors.trans {t t' t'' : Transaction} (h : SameErrors t t')
    (h' : SameErrors t' t'') : SameErrors t t'' :=
  ⟨h'.1.trans h.1, h'.2.trans h.2, h'.3.trans h.3⟩

/-- Opening a round leaves the errors: it replaces the round, the phase and the undo token. -/
theorem sameErrors_initRound {token : Nat} (h : t.initRound p token = .ok t') :
    SameErrors t t' := by
  obtain ⟨_, _, _, _, ⟨_, rfl⟩ | ⟨_, rfl⟩⟩ := initRound_ok h
  · exact ⟨rfl, rfl, rfl⟩
  · exact ⟨rfl, rfl, rfl⟩

/-- Starting a round leaves both, although it reads whether an error is pending. -/
theorem same_startRound (h : t.startRound p = .ok t') : SameWork t t' ∧ SameErrors t t' := by
  obtain ⟨_, ⟨_, rfl⟩ | ⟨_, _, _, rfl⟩⟩ := startRound_ok h
  · exact ⟨⟨rfl, rfl, rfl⟩, ⟨rfl, rfl, rfl⟩⟩
  · exact ⟨⟨rfl, rfl, rfl⟩, ⟨rfl, rfl, rfl⟩⟩

/-- Finishing a round closes the latch and leaves the work. -/
theorem sameWork_finishRound (h : t.finishRound p = .ok t') : SameWork t t' := by
  obtain ⟨_, _, _, ⟨_, rfl⟩ | ⟨_, rfl⟩⟩ := finishRound_ok h
  · exact ⟨rfl, rfl, rfl⟩
  · exact ⟨rfl, rfl, rfl⟩

/-- A result that comes in leaves both, whether it is queued, taken in, or dropped because the
transaction has failed. -/
theorem same_addResult {x : Delivery} (h : t.addResult x = .ok t') :
    SameWork t t' ∧ SameErrors t t' := by
  rcases addResult_ok h with ⟨_, rfl⟩ | ⟨_, ⟨_, r, _, rfl⟩ | ⟨_, r, _, rfl⟩⟩
  · exact ⟨.refl _, .refl _⟩
  · exact ⟨⟨rfl, rfl, rfl⟩, ⟨rfl, rfl, rfl⟩⟩
  · exact ⟨⟨rfl, rfl, rfl⟩, ⟨rfl, rfl, rfl⟩⟩

/-- Taking inputs leaves both. -/
theorem same_takeInputs {task : Task} {taken : List (DependencyId × List ResultTable)}
    (h : t.takeInputs task = .ok (t', taken)) : SameWork t t' ∧ SameErrors t t' := by
  obtain ⟨r, _, rfl⟩ := takeInputs_ok h
  exact ⟨⟨rfl, rfl, rfl⟩, ⟨rfl, rfl, rfl⟩⟩

/-- An error that is noted does not undo work. -/
theorem sameWork_fail (t : Transaction) (e : TxnError) : SameWork t (t.fail e) := by
  unfold fail
  split
  · exact .refl t
  · exact ⟨rfl, rfl, rfl⟩

/-- Waiting may note a time-out and report an error, and leaves the work. -/
theorem sameWork_wait (t : Transaction) (timeout : Option Nat) :
    SameWork t (t.wait timeout).1 := by
  rcases wait_eq t timeout with hsame | ⟨e, htimeout, _⟩
  · rw [hsame]
    exact ⟨rfl, rfl, rfl⟩
  · rw [htimeout]
    have hfail := sameWork_fail t.takeError.1 e
    exact ⟨hfail.admission, hfail.undoToken, hfail.touched⟩

end TxnPath.Transaction
