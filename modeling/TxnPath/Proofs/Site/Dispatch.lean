import TxnPath.Proofs.Site.Opening

/-!
# `TxnPath.Proofs.Site.Dispatch`: sending the tasks of a batch

A batch sends the tasks that are ready, then those that went on meanwhile, wave after
wave, and stops at the first failure. `dispatchWaves_keeps` is the induction over all of
it: what holds before the first task is sent, and is kept by sending one task and by
taking up the next wave, holds at the end. Such a property may speak about the outcome of
the last task.

`execute_ok` takes a batch apart into the round that it opens, the waves, and what comes
after the last wave (`Concluded`). What no single step of all this breaks, the batch does not
break either (`StepsKeep.execute`).
-/

set_option autoImplicit false

namespace TxnPath.Site

open Transaction

variable {R : Type} {s s' : Site R} {t t' : Transaction} {token : Nat}
  {tasks ready : List Task} {sent : Except TxnError Unit}
  {P : Site R → Transaction → Except TxnError Unit → Prop}

/-- Sending tasks in order keeps what sending each of them keeps. The property may speak of how
sending went, as it need not hold of failures in the same way. -/
theorem dispatchAll_keeps
    (hsend : ∀ {s t task s' t' sent}, P s t (.ok ()) → task ∈ tasks →
      s.dispatch t task token = .ok (s', t', sent) → P s' t' sent)
    (hready : ∀ task ∈ ready, task ∈ tasks) (hP : P s t (.ok ()))
    (h : dispatchAll token s t ready = .ok (s', t', sent)) : P s' t' sent := by
  induction ready generalizing s t with
  | nil => cases h; exact hP
  | cons task rest ih =>
    have htask := hready task List.mem_cons_self
    unfold dispatchAll at h
    split at h
    · cases h
    · next hdispatch => cases h; exact hsend hP htask hdispatch
    · next hdispatch =>
      exact ih (fun x hx => hready x (List.mem_cons_of_mem _ hx)) (hsend hP htask hdispatch) h

/-- Sending all waves keeps what sending a task and taking up a wave keep. It is an induction on the
room for waves. The two further assumptions say that only tasks of the batch are ever sent, which
`hsend` needs to know. -/
theorem dispatchWaves_keeps (tasks : List Task) {fuel : Nat}
    (hsend : ∀ {s t task s' t' sent}, P s t (.ok ()) → task ∈ tasks →
      s.dispatch t task token = .ok (s', t', sent) → P s' t' sent)
    (hwave : ∀ {s t}, P s t (.ok ()) → P s t.takeUnblocked.1 (.ok ()))
    (hwaiting : ∀ {s t}, P s t (.ok ()) → ∀ task ∈ t.round.waiting, task ∈ tasks)
    (hready : ∀ task ∈ ready, task ∈ tasks) (hP : P s t (.ok ()))
    (h : dispatchWaves token fuel s t ready = .ok (s', t', sent)) : P s' t' sent := by
  induction fuel generalizing s t ready with
  | zero => cases h; exact hP
  | succ fuel ih =>
    cases ready with
    | nil => cases h; exact hP
    | cons task rest =>
      unfold dispatchWaves at h
      split at h
      · cases h
      · next hall => cases h; exact dispatchAll_keeps hsend hready hP hall
      · next s₁ t₁ hall =>
        -- The wave has been sent, and the next one is made of tasks that were waiting.
        have hP₁ := dispatchAll_keeps hsend hready hP hall
        refine ih (fun x hx => hwaiting hP₁ x ?_) (hwave hP₁) h
        exact List.mem_append_right _ hx

/-- A task is sent with its inputs, and the call is kept in the journal. A failure is
recorded; otherwise the results are taken in, in order. -/
theorem dispatch_ok {task : Task} (h : s.dispatch t task token = .ok (s', t', sent)) :
    ∃ m inputs, t.takeInputs task = .ok (m, inputs)
      ∧ s' = { s with journal := s.journal
          ++ [.execute task.destination (task.toBatch inputs s.lastCommitted? token)] }
      ∧ ((∃ failure, s.engine.execute s.journal task.destination
            (task.toBatch inputs s.lastCommitted? token) = .error failure
          ∧ t' = m.fail (.engine failure) ∧ sent = .error (.engine failure))
        ∨ (∃ deliveries, s.engine.execute s.journal task.destination
            (task.toBatch inputs s.lastCommitted? token) = .ok deliveries
          ∧ deliveries.foldlM (fun t (x : DependencyId × ResultTable) =>
              t.addResult ⟨task.destination, x.1, x.2⟩) m = .ok t' ∧ sent = .ok ())) := by
  unfold dispatch at h
  split at h
  · cases h
  · next m inputs hm =>
    refine ⟨m, inputs, hm, ?_⟩
    simp only at h
    split at h
    -- The executor fails: its failure is noted, and no result comes in.
    · next failure hfailure =>
      cases h
      exact ⟨rfl, .inl ⟨failure, hfailure, rfl, rfl⟩⟩
    -- It answers with results, which are taken in in this order.
    · next deliveries hdeliveries =>
      split at h
      · cases h
      · next t'' hfold =>
        cases h
        exact ⟨rfl, .inr ⟨deliveries, hdeliveries, hfold, rfl⟩⟩

/-- Sending a task changes neither what the transaction has done nor its admission. -/
theorem sameWork_dispatch {task : Task} (h : s.dispatch t task token = .ok (s', t', sent)) :
    SameWork t t' := by
  obtain ⟨m, inputs, hm, _, ⟨failure, _, rfl, _⟩ | ⟨deliveries, _, hfold, _⟩⟩ := dispatch_ok h
  · exact (same_takeInputs hm).1.trans (sameWork_fail m _)
  · exact (same_takeInputs hm).1.trans
      (Outcome.foldlM_rel SameWork .refl .trans (fun hx => (same_addResult hx).1) hfold)

/-- A result that comes in lets tasks go on and makes none wait. -/
theorem waiting_addResult {x : Delivery} (h : t.addResult x = .ok t') :
    ∀ task ∈ t'.round.waiting, task ∈ t.round.waiting := by
  rcases addResult_ok h with ⟨_, rfl⟩ | ⟨_, ⟨_, r, hr, rfl⟩ | ⟨_, r, hr, rfl⟩⟩
  · exact fun _ htask => htask
  · rw [Round.enqueue_ok hr]
    exact fun _ htask => htask
  · obtain ⟨_, _, _, hwaiting, _⟩ := Round.accept_ok hr
    exact hwaiting

/-- Sending a task brings no new ones. Those that wait afterwards waited before, though they may be
in another list. -/
theorem waiting_dispatch {task : Task} (h : s.dispatch t task token = .ok (s', t', sent)) :
    ∀ task ∈ t'.round.waiting, task ∈ t.round.waiting := by
  obtain ⟨m, inputs, hm, _, hanswer⟩ := dispatch_ok h
  obtain ⟨r, hr, rfl⟩ := takeInputs_ok hm
  have hbooks := (Round.takeInputs_ok hr).1
  have hinputs : (t.setRound r).round.waiting = t.round.waiting := by
    show r.waiting = _
    rw [hbooks]
    rfl
  rw [← hinputs]
  -- Inputs were taken without a change of the waiting tasks. A failure adds none, and results only
  -- free them.
  rcases hanswer with ⟨failure, _, rfl, _⟩ | ⟨deliveries, _, hfold, _⟩
  · unfold Transaction.fail
    split
    · exact fun _ htask => htask
    · exact fun _ htask => htask
  · exact Outcome.foldlM_rel
      (fun t t' : Transaction => ∀ task ∈ t'.round.waiting, task ∈ t.round.waiting)
      (fun _ _ htask => htask) (fun h h' task htask => h task (h' task htask))
      waiting_addResult hfold

/-! ### A batch as a whole -/

variable [Scalar R]

/-- Recording a batch with the forecaster makes no call of an executor, and draws no token. -/
theorem recordBatch_journal {forecast forecast' : Option (Forecast R)} {queries : List Query}
    {recorded : Except TxnError Unit}
    (h : s.recordBatch forecast queries = .ok (s', forecast', recorded)) :
    s'.journal = s.journal ∧ s'.nextToken = s.nextToken := by
  unfold recordBatch at h
  split at h
  · split at h
    · cases h
    · cases h; exact ⟨rfl, rfl⟩
  · cases h; exact ⟨rfl, rfl⟩

/-- Closing a round reads its results and then finishes it at every partition. -/
theorem closeRound_ok {results : List ResultTable} (h : closeRound t tasks = .ok (t', results)) :
    t.results = .ok results
      ∧ atEach finishRound t (participants t.admission.base tasks) = .ok t' := by
  obtain ⟨results', hresults, h⟩ := Outcome.bind_ok h
  obtain ⟨t'', hfinish, h⟩ := Outcome.bind_ok h
  cases h
  exact ⟨hresults, hfinish⟩

/-- Closing a round does no work. -/
theorem sameWork_closeRound {results : List ResultTable}
    (h : closeRound t tasks = .ok (t', results)) : SameWork t t' :=
  Outcome.foldlM_rel SameWork .refl .trans sameWork_finishRound (closeRound_ok h).2

/-- What becomes of a transaction after the last wave. If a task failed it stays as it is. Else it
waits, and if the wait ends well its round is closed and its results are kept. -/
inductive Concluded (tasks : List Task) (t : Transaction) : Transaction → Prop where
  | failed : Concluded tasks t t
  | waited (timeout : Option Nat) : Concluded tasks t (t.wait timeout).1
  | closed {t₁ : Transaction} {timeout : Option Nat} {results : List ResultTable}
    (hclose : closeRound (t.wait timeout).1 tasks = .ok (t₁, results)) : Concluded tasks t t₁
  | kept {t₁ : Transaction} {timeout : Option Nat} {results : List ResultTable}
    (hclose : closeRound (t.wait timeout).1 tasks = .ok (t₁, results)) :
    Concluded tasks t (t₁.setLastResults results)

/-- However a batch is concluded, that does no work. -/
theorem Concluded.sameWork (h : Concluded tasks t t') : SameWork t t' := by
  cases h with
  | failed => exact .refl t
  | waited timeout => exact sameWork_wait t timeout
  | closed hclose => exact (sameWork_wait t _).trans (sameWork_closeRound hclose)
  | kept hclose =>
    have hwork := (sameWork_wait t _).trans (sameWork_closeRound hclose)
    exact ⟨hwork.admission, hwork.undoToken, hwork.touched⟩

/-- A batch is refused and changes nothing, or it opens its round and sends its tasks. If
it gives results then no task failed, the wait ended, and the round was closed. -/
theorem execute_ok {a a' : Admitted R} {answer : Except TxnError (List ResultTable)}
    (h : s.execute a tasks = .ok (s', a', answer)) :
    (s' = s ∧ a' = a ∧ ∃ e, answer = .error e)
      ∨ ∃ t ready s₁ t₁ sent,
        a.txn.abortReason = none
        ∧ (∀ task ∈ tasks, a.txn.isLocal task.destination = true)
        ∧ openRound a.txn tasks s.nextToken = .ok (t, ready)
        ∧ dispatchWaves s.nextToken (tasks.length + 1)
            { s with nextToken := s.nextToken + 1 } t ready = .ok (s₁, t₁, sent)
        ∧ s'.journal = s₁.journal ∧ s'.nextToken = s₁.nextToken ∧ Concluded tasks t₁ a'.txn
        ∧ ∀ results, answer = .ok results → sent = .ok ()
          ∧ ∃ t₂ t₃, t₁.wait s₁.config.latchTimeout = (t₂, .ready)
            ∧ closeRound t₂ tasks = .ok (t₃, results) := by
  unfold execute at h
  split at h
  · cases h; exact .inl ⟨rfl, rfl, _, rfl⟩
  · cases h; exact .inl ⟨rfl, rfl, _, rfl⟩
  · next habort hfind =>
    right
    have hlocal : ∀ task ∈ tasks, a.txn.isLocal task.destination = true := by
      intro task htask
      simpa using List.find?_eq_none.mp hfind task htask
    obtain ⟨⟨t, ready⟩, hopen, h⟩ := Outcome.bind_ok h
    obtain ⟨⟨s₁, t₁, sent⟩, hwaves, h⟩ := Outcome.bind_ok h
    refine ⟨t, ready, s₁, t₁, sent, habort, hlocal, hopen, hwaves, ?_⟩
    -- After the waves the batch may still fail at the latch and when it is recorded.
    cases sent with
    | error e => cases h; exact ⟨rfl, rfl, .failed, fun _ h => nomatch h⟩
    | ok _ =>
      have hwait : Concluded tasks t₁ (t₁.wait s₁.config.latchTimeout).1 := .waited _
      simp only at h
      split at h
      · cases h
      · next t₂ e ht₂ =>
        rw [ht₂] at hwait
        cases h
        exact ⟨rfl, rfl, hwait, fun _ h => nomatch h⟩
      · next t₂ ht₂ =>
        obtain ⟨⟨t₃, results⟩, hclose, h⟩ := Outcome.bind_ok h
        obtain ⟨⟨s₂, forecast, recorded⟩, hrecord, h⟩ := Outcome.bind_ok h
        obtain ⟨hjournal, htoken⟩ := recordBatch_journal hrecord
        have hclosed : closeRound (t₁.wait s₁.config.latchTimeout).1 tasks = .ok (t₃, results) := by
          rw [ht₂]
          exact hclose
        cases recorded with
        | error e => cases h; exact ⟨hjournal, htoken, .closed hclosed, fun _ h => nomatch h⟩
        | ok _ =>
          cases h
          refine ⟨hjournal, htoken, .kept hclosed, fun results' hresults => ?_⟩
          cases hresults
          exact ⟨rfl, t₂, t₃, ht₂, hclose⟩

/-! ### What every step of a batch keeps -/

/-- A relation between transactions that no step of a batch breaks. A batch is a sequence of such
steps, so that `execute` need not be opened again for another relation. -/
structure StepsKeep (rel : Transaction → Transaction → Prop) : Prop where
  refl : ∀ t, rel t t
  trans : ∀ {t t' t''}, rel t t' → rel t' t'' → rel t t''
  initRound : ∀ {t p token t'}, t.initRound p token = .ok t' → rel t t'
  setBatchSize : ∀ t n, rel t (t.setBatchSize n)
  addTask : ∀ {t task t' isBlocked}, t.addTask task = .ok (t', isBlocked) → rel t t'
  startRound : ∀ {t p t'}, t.startRound p = .ok t' → rel t t'
  takeInputs : ∀ {t task t' taken}, t.takeInputs task = .ok (t', taken) → rel t t'
  addResult : ∀ {t x t'}, t.addResult x = .ok t' → rel t t'
  takeUnblocked : ∀ t, rel t t.takeUnblocked.1
  fail : ∀ t e, rel t (t.fail e)
  wait : ∀ t timeout, rel t (t.wait timeout).1
  finishRound : ∀ {t p t'}, t.finishRound p = .ok t' → rel t t'
  setLastResults : ∀ t results, rel t (t.setLastResults results)

section StepsKeep

variable {rel : Transaction → Transaction → Prop}

omit [Scalar R] in
/-- What one task does not break, the tasks of a batch do not. They are registered in order. -/
theorem StepsKeep.addTasks (hrel : StepsKeep rel) (h : addTasks t tasks = .ok (t', ready)) :
    rel t t' := by
  induction tasks generalizing t ready with
  | nil =>
    cases h
    exact hrel.refl _
  | cons task rest ih =>
    rw [Site.addTasks] at h
    split at h
    · cases h
    · split at h
      · cases h
      · cases h
        exact hrel.trans (hrel.addTask ‹_›) (ih ‹_›)

omit [Scalar R] in
/-- Nor does opening a round, which consists of such steps. -/
theorem StepsKeep.openRound (hrel : StepsKeep rel)
    (h : openRound t tasks token = .ok (t', ready)) : rel t t' := by
  obtain ⟨t₁, hinit, h⟩ := Outcome.bind_ok h
  obtain ⟨⟨t₂, ready₂⟩, hadd, h⟩ := Outcome.bind_ok h
  obtain ⟨t₃, hstart, h⟩ := Outcome.bind_ok h
  cases h
  have hbegun := Outcome.foldlM_rel rel hrel.refl hrel.trans hrel.initRound hinit
  have hstarted := Outcome.foldlM_rel rel hrel.refl hrel.trans hrel.startRound hstart
  exact hrel.trans hbegun
    (hrel.trans (hrel.setBatchSize t₁ _) (hrel.trans (hrel.addTasks hadd) hstarted))

omit [Scalar R] in
/-- Nor does sending a task, whose results come in one after the other, or whose failure is noted.
-/
theorem StepsKeep.dispatch (hrel : StepsKeep rel) {task : Task}
    (h : s.dispatch t task token = .ok (s', t', sent)) : rel t t' := by
  obtain ⟨m, inputs, hm, _, ⟨failure, _, rfl, _⟩ | ⟨deliveries, _, hfold, _⟩⟩ := dispatch_ok h
  · exact hrel.trans (hrel.takeInputs hm) (hrel.fail m _)
  · exact hrel.trans (hrel.takeInputs hm)
      (Outcome.foldlM_rel rel hrel.refl hrel.trans hrel.addResult hfold)

omit [Scalar R] in
/-- Nor does what comes after the last wave. -/
theorem StepsKeep.concluded (hrel : StepsKeep rel) (h : Concluded tasks t t') : rel t t' := by
  have hclosed : ∀ {t₁ timeout results},
      closeRound (t.wait timeout).1 tasks = .ok (t₁, results) → rel t t₁ := fun hclose =>
    hrel.trans (hrel.wait t _)
      (Outcome.foldlM_rel rel hrel.refl hrel.trans hrel.finishRound (closeRound_ok hclose).2)
  cases h with
  | failed => exact hrel.refl t
  | waited timeout => exact hrel.wait t timeout
  | closed hclose => exact hclosed hclose
  | kept hclose => exact hrel.trans (hclosed hclose) (hrel.setLastResults _ _)

/-- What every step keeps, a batch keeps. The steps are opening the round, sending the tasks, taking
up those that can go on, and the end of the batch. -/
theorem StepsKeep.execute (hrel : StepsKeep rel) {a a' : Admitted R}
    {answer : Except TxnError (List ResultTable)} (h : s.execute a tasks = .ok (s', a', answer)) :
    rel a.txn a'.txn := by
  rcases execute_ok h with ⟨_, rfl, _⟩ | ⟨t, ready, s₁, t₁, sent, _, _, hopen, hwaves, _, _,
    hconcluded, _⟩
  · exact hrel.refl _
  · obtain ⟨hopened, hready⟩ := openRound_ok hopen
    -- Only tasks of the batch ever wait, so that the waves send no others.
    have hsent : rel t t₁ ∧ ∀ task ∈ t₁.round.waiting, task ∈ tasks := by
      refine dispatchWaves_keeps tasks
        (P := fun _ t₁ _ => rel t t₁ ∧ ∀ task ∈ t₁.round.waiting, task ∈ tasks)
        ?_ ?_ And.right hready ⟨hrel.refl t, hopened.waiting⟩ hwaves
      · intro _ t₁ task _ t₂ _ hP _ hdispatch
        exact ⟨hrel.trans hP.1 (hrel.dispatch hdispatch),
          fun x hx => hP.2 x (waiting_dispatch hdispatch x hx)⟩
      · intro _ t₁ hP
        refine ⟨hrel.trans hP.1 (hrel.takeUnblocked t₁), fun x hx => hP.2 x ?_⟩
        exact List.mem_append_left _ (by simpa [Round.waiting, Transaction.takeUnblocked] using hx)
    exact hrel.trans (hrel.openRound hopen) (hrel.trans hsent.1 (hrel.concluded hconcluded))

end StepsKeep

/-! ### A site to look at

The statements of the modules that follow are also looked at on one small site: a single
partition, no forecasts, and an executor that answers every output with the numbers of
the fragments that it was asked to run. -/

/-- The table that the executor of the small site makes of a batch. -/
def namingTable (fragments : List Nat) : ResultTable :=
  ⟨["fragment"], fragments.map fun f : Nat => [.int f]⟩

/-- A site of one partition. -/
def soloSite : Site Rat where
  config := { Config.default with predict := false }
  catalog := ⟨1, [], [⟨0, "transfer", [], [⟨0, "debit", .update, [], []⟩,
    ⟨1, "credit", .update, [], []⟩], false, true, none⟩]⟩
  router := ⟨1, fun _ _ => .ok 0, fun _ _ _ _ => .ok (.singleton 0)⟩
  engine := ⟨fun _ _ b => .ok (b.outputs.map fun d => (d, namingTable b.fragments))⟩
  forecaster := none
  hosted := [0]
  nextTxn := 1
  nextToken := 1
  lastCommitted := 0
  journal := []

end TxnPath.Site
