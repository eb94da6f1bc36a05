import TxnPath.Proofs.Site.Dispatch
import TxnPath.Proofs.Txn.Acts

/-!
# `TxnPath.Proofs.Site.Endings`: how a batch ends, and what it answers

After its last wave a batch ends in one of four ways, each with its own answer (`Ends`):
a task has failed, the wait for the results has, the round is closed and the forecast
refuses the batch, or the results are given. `execute_cases` takes a batch apart into the
round that it opens, the waves, and the way in which it ends.

`Underway` is what holds of a transaction while the tasks of a batch are sent: its phases stay
as they are, nothing is queued, and the error of a task that fails is recorded.
`execute_errors` follows: a batch of a transaction without error records none, or it
answers the one that it records.
-/

set_option autoImplicit false

namespace TxnPath.Site

open Transaction

variable {R : Type} {s s' s₁ : Site R} {t t' t₁ t₂ t₃ : Transaction} {token : Nat}
  {tasks ready : List Task} {sent : Except TxnError Unit}

/-! ### What batches never take away -/

/-- No step of a batch takes anything away from a transaction. Most of them pass by what this is
about; failing and waiting have lemmas of their own. -/
theorem stepsKeep_continues : StepsKeep Continues where
  refl := .refl
  trans := .trans
  initRound := fun h => (passes_initRound h).continues
  setBatchSize := fun _ _ => ⟨rfl, rfl, fun _ h => h⟩
  addTask := fun h => (passes_addTask h).continues
  startRound := fun h => (passes_startRound h).continues
  takeInputs := fun h => (passes_takeInputs h).continues
  addResult := fun h => (passes_addResult h).continues
  takeUnblocked := fun _ => ⟨rfl, rfl, fun _ h => h⟩
  fail := continues_fail
  wait := continues_wait
  finishRound := fun h => (passes_finishRound h).continues
  setLastResults := fun _ _ => ⟨rfl, rfl, fun _ h => h⟩

/-- An error that is recorded has its wording. -/
theorem reported_fail (h : t.Reported) (e : TxnError) : (t.fail e).Reported := by
  rcases fail_cases t e with hsame | hfails
  · rw [hsame]
    exact h
  · exact hfails.reported

/-- Waiting leaves an error that waits to be reported with its wording. -/
theorem reported_wait (h : t.Reported) (timeout : Option Nat) : (t.wait timeout).1.Reported := by
  rcases wait_cases t timeout with hpasses | ⟨_, _, hfails⟩
  · exact h.passes hpasses
  · exact hfails.reported

/-- No step of a batch loses the wording of an error. Failing records the error and its wording
together, and waiting takes an error out that has been worded before. -/
theorem stepsKeep_reported : StepsKeep fun t t' => t.Reported → t'.Reported where
  refl := fun _ => id
  trans := fun h h' => h' ∘ h
  initRound := fun h hreported => hreported.passes (passes_initRound h)
  setBatchSize := fun _ _ hreported => hreported
  addTask := fun h hreported => hreported.passes (passes_addTask h)
  startRound := fun h hreported => hreported.passes (passes_startRound h)
  takeInputs := fun h hreported => hreported.passes (passes_takeInputs h)
  addResult := fun h hreported => hreported.passes (passes_addResult h)
  takeUnblocked := fun _ hreported => hreported
  fail := fun _ e hreported => reported_fail hreported e
  wait := fun _ timeout hreported => reported_wait hreported timeout
  finishRound := fun h hreported => hreported.passes (passes_finishRound h)
  setLastResults := fun _ _ hreported => hreported

/-! ### Sending the tasks of a round -/

/-- The second transaction is admitted like the first one, in the same phases and with the
same first error. A round that has started queues nothing. -/
structure SameStage (t t' : Transaction) : Prop where
  admission : t'.admission = t.admission
  phases : t'.phases = t.phases
  abortReason : t'.abortReason = t.abortReason
  queued : t.phase t.admission.base = .ok .started → t'.round.queued = t.round.queued

namespace SameStage

/-- A transaction stands where it stands. -/
theorem refl (t : Transaction) : SameStage t t := ⟨rfl, rfl, rfl, fun _ => rfl⟩

/-- Where two transactions stand alike, their phases are the same. -/
theorem phase (h : SameStage t t') (p : Nat) : t'.phase p = t.phase p :=
  phase_congr h.phases h.admission p

/-- Standing alike carries over. -/
theorem trans (h : SameStage t t₁) (h' : SameStage t₁ t') : SameStage t t' := by
  refine ⟨h'.admission.trans h.admission, h'.phases.trans h.phases,
    h'.abortReason.trans h.abortReason, fun hstarted => ?_⟩
  have hstarted' : t₁.phase t₁.admission.base = .ok .started := by
    rw [h.admission, h.phase]
    exact hstarted
  exact (h'.queued hstarted').trans (h.queued hstarted)

end SameStage

/-- Taking inputs moves no phase. -/
theorem sameStage_takeInputs {task : Task} {taken : List (DependencyId × List ResultTable)}
    (h : t.takeInputs task = .ok (t', taken)) : SameStage t t' := by
  obtain ⟨r, hr, rfl⟩ := takeInputs_ok h
  have hqueued : r.queued = t.round.queued := by rw [(Round.takeInputs_ok hr).1]
  exact ⟨rfl, rfl, rfl, fun _ => hqueued⟩

/-- Nor does a result that comes in after the round has started. -/
theorem sameStage_addResult {x : Delivery} (h : t.addResult x = .ok t') : SameStage t t' := by
  rcases addResult_ok h with ⟨_, rfl⟩ | ⟨_, ⟨hinit, r, _, rfl⟩ | ⟨_, r, hr, rfl⟩⟩
  · exact .refl _
  · exact ⟨rfl, rfl, rfl, fun hstarted => nomatch phase_unique hinit hstarted⟩
  · exact ⟨rfl, rfl, rfl, fun _ => (Round.accept_settles hr).queued⟩

/-- The tasks of a batch are being sent since the transaction was `t`; `sent` says how the
last one went. -/
structure Underway (tasks : List Task) (t t₁ : Transaction) (sent : Except TxnError Unit) :
    Prop where
  admission : t₁.admission = t.admission
  phases : t₁.phases = t.phases
  queued : t₁.round.queued = []
  waiting : ∀ task ∈ t₁.round.waiting, task ∈ tasks
  reported : t₁.Reported
  sound : sent = .ok () → t₁.abortReason = none
  failed : ∀ e, sent = .error e → t₁.abortReason = some e.message

/-- Sending one task. Its failure becomes the error of the transaction, and is what sending answers.
If it does not fail then nothing about the stage of the batch has changed. -/
theorem Underway.dispatch {task : Task} (hstarted : t.phase t.admission.base = .ok .started)
    (h : Underway tasks t t₁ (.ok ())) (hdispatch : s.dispatch t₁ task token = .ok (s', t₂, sent)) :
    Underway tasks t t₂ sent := by
  have hwaiting : ∀ task ∈ t₂.round.waiting, task ∈ tasks := fun x hx =>
    h.waiting x (waiting_dispatch hdispatch x hx)
  have hbase : t₁.phase t₁.admission.base = .ok .started := by
    rw [h.admission, phase_congr h.phases h.admission]
    exact hstarted
  have hreported := stepsKeep_reported.dispatch hdispatch h.reported
  obtain ⟨m, inputs, hm, _, hanswer⟩ := dispatch_ok hdispatch
  -- The inputs are taken before the executor is asked, so also where it fails.
  have htaken := sameStage_takeInputs hm
  rcases hanswer with ⟨failure, _, rfl, rfl⟩ | ⟨deliveries, _, hfold, rfl⟩
  · have hopen : m.abortReason = none := htaken.abortReason.trans (h.sound rfl)
    rw [fail_of_open hopen] at hwaiting hreported ⊢
    refine ⟨htaken.admission.trans h.admission, htaken.phases.trans h.phases,
      (htaken.queued hbase).trans h.queued, hwaiting, hreported, nofun, fun e he => ?_⟩
    obtain rfl := Except.error.inj he
    rfl
  · have hstage := htaken.trans
      (Outcome.foldlM_rel SameStage .refl .trans sameStage_addResult hfold)
    exact ⟨hstage.admission.trans h.admission, hstage.phases.trans h.phases,
      (hstage.queued hbase).trans h.queued, hwaiting, hreported,
      fun _ => hstage.abortReason.trans (h.sound rfl), nofun⟩

/-- Taking up the next wave changes nothing that holds while tasks are sent. -/
theorem Underway.wave (h : Underway tasks t t₁ (.ok ())) :
    Underway tasks t t₁.takeUnblocked.1 (.ok ()) where
  admission := h.admission
  phases := h.phases
  queued := h.queued
  waiting := fun x hx =>
    h.waiting x (List.mem_append_left _ (by simpa [Round.waiting, takeUnblocked] using hx))
  reported := h.reported
  sound := h.sound
  failed := nofun

/-- The round of a batch is open, of a transaction without error, and its tasks have been
sent. -/
theorem underway_waves {fuel : Nat} {a : Transaction} (hreported : a.Reported)
    (hopen : a.abortReason = none)
    (hopened : openRound a tasks token = .ok (t, ready))
    (hwaves : dispatchWaves token fuel s t ready = .ok (s', t₁, sent)) :
    Underway tasks t t₁ sent := by
  obtain ⟨h, hready⟩ := openRound_ok hopened
  obtain ⟨_, _, _, _, _, _, _, _, latch, hround⟩ := openRound_split hopened
  have hqueued : t.round.queued = [] := by rw [hround]
  have hfirst : Underway tasks t t (.ok ()) :=
    ⟨rfl, rfl, hqueued, h.waiting, stepsKeep_reported.openRound hopened hreported,
      fun _ => h.errors.abortReason.trans hopen, nofun⟩
  exact dispatchWaves_keeps tasks (P := fun _ t₁ sent => Underway tasks t t₁ sent)
    (fun hunderway _ hdispatch => hunderway.dispatch h.started hdispatch) Underway.wave
    Underway.waiting hready hfirst hwaves

/-- Sending tasks changes nothing of the site but its journal. So what was configured, hosted and
committed before a batch is there after it. -/
theorem waves_site {fuel : Nat} (hwaiting : ∀ task ∈ t.round.waiting, task ∈ tasks)
    (hready : ∀ task ∈ ready, task ∈ tasks)
    (hwaves : dispatchWaves token fuel s t ready = .ok (s', t', sent)) :
    ∃ journal, s' = { s with journal := journal } := by
  -- The waves ask that only tasks of the batch wait, so this is carried along.
  refine (dispatchWaves_keeps tasks
    (P := fun s₁ t₁ _ => (∃ journal, s₁ = { s with journal := journal })
      ∧ ∀ task ∈ t₁.round.waiting, task ∈ tasks)
    ?_ ?_ And.right hready ⟨⟨s.journal, rfl⟩, hwaiting⟩ hwaves).1
  · rintro _ t₁ task s₂ t₂ sent ⟨⟨journal, rfl⟩, hP⟩ _ hdispatch
    have hkept := fun x hx => hP x (waiting_dispatch hdispatch x hx)
    obtain ⟨_, _, _, rfl, _⟩ := dispatch_ok hdispatch
    exact ⟨⟨_, rfl⟩, hkept⟩
  · intro s₁ t₁ hP
    exact ⟨hP.1, fun x hx => hP.2 x (List.mem_append_left _
      (by simpa [Round.waiting, takeUnblocked] using hx))⟩

/-! ### The end of a batch -/

/-- How a batch ends whose tasks have left the transaction in `t₁`: what it leaves, and what
it answers. -/
inductive Ends (tasks : List Task) (t₁ : Transaction) :
    Except TxnError Unit → Transaction → Except TxnError (List ResultTable) → Prop where
  /-- A task has failed. -/
  | stopped (e : TxnError) : Ends tasks t₁ (.error e) t₁ (.error e)
  /-- The wait for the results has failed. -/
  | unanswered {timeout : Option Nat} {t₂ : Transaction} {e : TxnError}
    (hwait : t₁.wait timeout = (t₂, .failed e)) : Ends tasks t₁ (.ok ()) t₂ (.error e)
  /-- The round is closed, and the forecast refuses the batch. -/
  | unrecorded {timeout : Option Nat} {t₂ t₃ : Transaction} {results : List ResultTable}
    {e : TxnError} (hwait : t₁.wait timeout = (t₂, .ready))
    (hclose : closeRound t₂ tasks = .ok (t₃, results)) : Ends tasks t₁ (.ok ()) t₃ (.error e)
  /-- The results are given. -/
  | answered {timeout : Option Nat} {t₂ t₃ : Transaction} {results : List ResultTable}
    (hwait : t₁.wait timeout = (t₂, .ready))
    (hclose : closeRound t₂ tasks = .ok (t₃, results)) :
    Ends tasks t₁ (.ok ()) (t₃.setLastResults results) (.ok results)

variable [Scalar R] {a a' : Admitted R} {answer : Except TxnError (List ResultTable)}

/-- A batch is refused and changes nothing, or its round is opened, its tasks are sent, and
it ends. -/
theorem execute_cases (h : s.execute a tasks = .ok (s', a', answer)) :
    (s' = s ∧ a' = a ∧ ∃ e, answer = .error e)
      ∨ ∃ t ready s₁ t₁ sent,
        a.txn.abortReason = none
        ∧ openRound a.txn tasks s.nextToken = .ok (t, ready)
        ∧ dispatchWaves s.nextToken (tasks.length + 1)
            { s with nextToken := s.nextToken + 1 } t ready = .ok (s₁, t₁, sent)
        ∧ Ends tasks t₁ sent a'.txn answer
        ∧ (s' = s₁ ∧ a'.forecast = a.forecast
          ∨ ∃ recorded, s₁.recordBatch a.forecast (Task.queries tasks)
            = .ok (s', a'.forecast, recorded)) := by
  unfold execute at h
  split at h
  · cases h; exact .inl ⟨rfl, rfl, _, rfl⟩
  · cases h; exact .inl ⟨rfl, rfl, _, rfl⟩
  · next habort _ =>
    right
    obtain ⟨⟨t, ready⟩, hopen, h⟩ := Outcome.bind_ok h
    obtain ⟨⟨s₁, t₁, sent⟩, hwaves, h⟩ := Outcome.bind_ok h
    refine ⟨t, ready, s₁, t₁, sent, habort, hopen, hwaves, ?_⟩
    -- The returns come in the order of `Ends`: after the waves, the wait, the close, the forecast.
    cases sent with
    | error e => cases h; exact ⟨.stopped e, .inl ⟨rfl, rfl⟩⟩
    | ok _ =>
      simp only at h
      split at h
      · cases h
      · next t₂ e hwait => cases h; exact ⟨.unanswered hwait, .inl ⟨rfl, rfl⟩⟩
      · next t₂ hwait =>
        obtain ⟨⟨t₃, results⟩, hclose, h⟩ := Outcome.bind_ok h
        obtain ⟨⟨s₂, forecast, recorded⟩, hrecord, h⟩ := Outcome.bind_ok h
        cases recorded with
        | error e => cases h; exact ⟨.unrecorded hwait hclose, .inr ⟨_, hrecord⟩⟩
        | ok _ => cases h; exact ⟨.answered hwait hclose, .inr ⟨_, hrecord⟩⟩

/-! ### The error of a batch -/

/-- A transaction without error fails at a wait by recording what the wait answers. There was no
earlier error that the wait could have answered with. -/
theorem abortReason_wait_failed {timeout : Option Nat} {e : TxnError} (hreported : t.Reported)
    (hopen : t.abortReason = none) (h : t.wait timeout = (t', .failed e)) :
    t'.abortReason = some e.message := by
  have hpending : t.pendingError = none := by
    cases hp : t.pendingError with
    | none => rfl
    | some e' => exact nomatch hopen.symm.trans (hreported e' hp)
  -- So nothing is taken at the wait, and the error it answers with is of the wait itself.
  have htaken : (t.takeError).1.abortReason = none := hopen
  unfold Transaction.wait at h
  simp only [takeError, hpending] at h
  split at h
  · cases h
  · split at h
    · cases h
    · cases h
    · obtain ⟨rfl, he⟩ := Prod.mk.inj h
      obtain rfl := WaitResult.failed.inj he
      exact congrArg Transaction.abortReason (fail_of_open htaken _)

/-- However a batch ends, it records no error, or answers the one that it records. It goes by the
ways in which a batch can end, of which only two record an error. -/
theorem Ends.errors (h : Ends tasks t₁ sent t' answer) (hunderway : Underway tasks t t₁ sent) :
    t'.abortReason = none ∨ ∃ e, answer = .error e ∧ t'.abortReason = some e.message := by
  -- A round is closed after a wait that ended well, which records nothing either.
  have hclosed : ∀ {timeout t₂ t₃ results}, sent = .ok () → t₁.wait timeout = (t₂, .ready) →
      closeRound t₂ tasks = .ok (t₃, results) → t₃.abortReason = none := by
    intro timeout t₂ t₃ results hsent hwait hclose
    have hfinished := Outcome.foldlM_rel (fun t t' : Transaction => t'.abortReason = t.abortReason)
      (fun _ => rfl) (fun h h' => h'.trans h) (fun h => (passes_finishRound h).abortReason)
      (closeRound_ok hclose).2
    rw [hfinished, eq_of_wait_ready hwait]
    exact hunderway.sound hsent
  cases h with
  | stopped e => exact .inr ⟨e, rfl, hunderway.failed e rfl⟩
  | unanswered hwait =>
    exact .inr ⟨_, rfl, abortReason_wait_failed hunderway.reported (hunderway.sound rfl) hwait⟩
  | unrecorded hwait hclose => exact .inl (hclosed rfl hwait hclose)
  | @answered _ _ t₃ _ hwait hclose =>
    have hopen : t₃.abortReason = none := hclosed rfl hwait hclose
    exact .inl hopen

/-- A batch of a transaction without error records none, or it answers the error that it
records. -/
theorem execute_errors (hreported : a.txn.Reported) (hopen : a.txn.abortReason = none)
    (h : s.execute a tasks = .ok (s', a', answer)) :
    a'.txn.abortReason = none
      ∨ ∃ e, answer = .error e ∧ a'.txn.abortReason = some e.message := by
  rcases execute_cases h with ⟨_, rfl, _⟩ | ⟨t, ready, s₁, t₁, sent, _, hopened, hwaves, hends, _⟩
  · exact .inl hopen
  · exact hends.errors (underway_waves hreported hopen hopened hwaves)

end TxnPath.Site
