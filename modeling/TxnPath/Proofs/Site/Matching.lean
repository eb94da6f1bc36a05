import TxnPath.Proofs.Site.Dispatch
import TxnPath.Proofs.Txn.Matching

/-!
# `TxnPath.Proofs.Site.Matching`: whose results a batch returns

A batch registers its tasks in the order in which they are given, but runs them in
another one: those without inputs first. Results are matched to statements in the order
of registration (`TxnPath.Proofs.Txn.Matching`).

`Sends` follows a batch while it sends its tasks: the order in which they were run, and
the handovers of their results. For executors that answer in the order of fragments
(`Engine.AnswersInOrder`) a batch that returns results was such a run
(`execute_results`):

* each result was handed over to the statement at its position, and an executor produced
  it for the statement that the handover names as its source (`Produced`);
* every result stayed with the statement that it was produced for if and only if, for
  each partition and dependency, the statements were run in the order in which they were
  registered.

`results_swapped` is a batch in which the two orders differ.
-/

set_option autoImplicit false

namespace TxnPath

/-- The executors answer the outputs of a batch in the order of its fragments. -/
def Engine.AnswersInOrder (e : Engine) : Prop :=
  ∀ history p b answer, e.execute history p b = .ok answer → answer.map Prod.fst = b.outputs

/-- The statements whose fragments owe a result under a partition and a dependency, in the
order of tasks and fragments. -/
def Task.statementsUnder (p : Nat) (d : DependencyId) (tasks : List Task) : List Nat :=
  ((tasks.flatMap Task.owed).filter (Awaited.isUnder p d)).map Awaited.statement

/-- What a task owes is listed dependency by dependency as what its batch asks of the executor. -/
theorem Task.owed_dependency (t : Task) (tables : List (DependencyId × List ResultTable))
    (last : Option TxnId) (token : Nat) :
    t.owed.map Awaited.dependency = (t.toBatch tables last token).outputs := by
  show (Fragment.owed t.destination t.fragments).map Awaited.dependency
    = t.fragments.filterMap Fragment.output
  unfold Fragment.owed
  rw [List.map_filterMap]
  congr 1
  funext f
  cases f.output <;> rfl

/-- A task owes all its results from where it is sent. -/
theorem Task.owed_partition {t : Task} {a : Awaited} (h : a ∈ t.owed) :
    a.partition = t.destination := by
  obtain ⟨f, _, hf⟩ := List.mem_filterMap.mp h
  obtain ⟨d, _, rfl⟩ := Option.map_eq_some_iff.mp hf
  rfl

namespace Site

open Transaction

variable {R : Type} {s₀ s s' : Site R} {t₀ t t' : Transaction} {token : Nat}
  {tasks order : List Task} {given : List Handover}

/-- A batch has run tasks in an order, and handed over their results. Each task is sent
with its inputs, the executor answers what its fragments owe, and the answers are taken
in. -/
inductive Sends (token : Nat) (s₀ : Site R) (t₀ : Transaction) :
    List Task → List Handover → Site R → Transaction → Prop
  | start : Sends token s₀ t₀ [] [] s₀ t₀
  | send {order : List Task} {given more : List Handover} {s : Site R} {t m t' : Transaction}
      {task : Task} {inputs : List (DependencyId × List ResultTable)}
      (hsends : Sends token s₀ t₀ order given s t)
      (hinputs : t.takeInputs task = .ok (m, inputs))
      (hanswer : s.engine.execute s.journal task.destination
        (task.toBatch inputs s.lastCommitted? token)
          = .ok (more.map fun h => (h.source.dependency, h.table)))
      (hsources : more.map Handover.source = task.owed) (hhands : Hands m more t') :
      Sends token s₀ t₀ (order ++ [task]) (given ++ more)
        { s with journal := s.journal
            ++ [.execute task.destination (task.toBatch inputs s.lastCommitted? token)] } t'
  | wave {order : List Task} {given : List Handover} {s : Site R} {t : Transaction}
      (hsends : Sends token s₀ t₀ order given s t) :
      Sends token s₀ t₀ order given s t.takeUnblocked.1

/-- A table is what an executor answered for a fragment of a statement, when it ran one of
the tasks under an undo token between two states of the journal. -/
def Produced (e : Engine) (journal journal' : List EngineCall) (token : Nat) (tasks : List Task)
    (i : Nat) (table : ResultTable) : Prop :=
  ∃ task ∈ tasks, ∃ (before after : List EngineCall) (b : Batch) (answer : Deliveries)
    (n : Nat) (d : DependencyId),
    journal' = journal ++ before ++ .execute task.destination b :: after
      ∧ b.fragments = task.fragments.map Fragment.id ∧ b.undoToken = token
      ∧ e.execute (journal ++ before) task.destination b = .ok answer
      ∧ answer[n]? = some (d, table) ∧ task.owed[n]? = some ⟨task.destination, d, i⟩

/-- Every result is one that an executor produced for the statement at its position. -/
def OwnResults (e : Engine) (journal journal' : List EngineCall) (token : Nat)
    (tasks : List Task) (results : List ResultTable) : Prop :=
  ∀ i table, results[i]? = some table → Produced e journal journal' token tasks i table

/-- What was produced stays produced while more calls are made. -/
theorem Produced.append {e : Engine} {journal journal' : List EngineCall} {i : Nat}
    {table : ResultTable} (h : Produced e journal journal' token tasks i table)
    (call : EngineCall) : Produced e journal (journal' ++ [call]) token tasks i table := by
  obtain ⟨task, htask, before, after, b, answer, n, d, hjournal, hrest⟩ := h
  refine ⟨task, htask, before, after ++ [call], b, answer, n, d, ?_, hrest⟩
  rw [hjournal, List.append_assoc, List.cons_append]

/-! ### A batch while it sends its tasks -/

/-- A batch has sent tasks up to now, in an order and with handovers that agree with what
was registered. -/
structure Tracked (tasks : List Task) (token : Nat) (s₀ : Site R) (t₀ : Transaction)
    (order : List Task) (given : List Handover) (s : Site R) (t : Transaction) : Prop where
  sends : Sends token s₀ t₀ order given s t
  engine : s.engine = s₀.engine
  journal : ∃ calls, s.journal = s₀.journal ++ calls
  known : ∀ task ∈ order, task ∈ tasks
  waiting : ∀ task ∈ t.round.waiting, task ∈ tasks
  accepting : t.Accepting
  balanced : ∃ c, t.round.Balanced c
  sources : given.map Handover.source = order.flatMap Task.owed
  matched : t.round.Matched (tasks.flatMap Task.owed) given
  produced : ∀ h ∈ given,
    Produced s₀.engine s₀.journal s.journal token tasks h.source.statement h.table

/-- Taking up the next wave hands over nothing. Tasks move from one list to the other, and no field
that results depend on is touched. -/
theorem Tracked.wave (h : Tracked tasks token s₀ t₀ order given s t) :
    Tracked tasks token s₀ t₀ order given s t.takeUnblocked.1 where
  sends := h.sends.wave
  engine := h.engine
  journal := h.journal
  known := h.known
  waiting := fun task htask => h.waiting task
    (List.mem_append_left _ (by simpa [Round.waiting, takeUnblocked] using htask))
  accepting := ⟨h.accepting.unfinished, h.accepting.unfailed, h.accepting.started⟩
  balanced := by
    obtain ⟨c, hc⟩ := h.balanced
    exact ⟨c, hc.counters, hc.registered, hc.accounted, hc.owed⟩
  sources := h.sources
  matched := h.matched.of_fewer rfl fun _ _ => .inl rfl
  produced := h.produced

/-- What a task's executor answers was produced for the statements of the fragments that owe it. The
executor answers in the order of the fragments, and so is each answer paired with its own one. -/
theorem produced_of_answer {task : Task} {inputs : List (DependencyId × List ResultTable)}
    {last : Option TxnId} {calls : List EngineCall} {more : List Handover} (htask : task ∈ tasks)
    (hjournal : s.journal = s₀.journal ++ calls)
    (hanswer : s₀.engine.execute s.journal task.destination (task.toBatch inputs last token)
      = .ok (more.map fun h => (h.source.dependency, h.table)))
    (hsources : more.map Handover.source = task.owed) {g : Handover} (hg : g ∈ more) :
    Produced s₀.engine s₀.journal
      (s.journal ++ [.execute task.destination (task.toBatch inputs last token)]) token tasks
      g.source.statement g.table := by
  obtain ⟨n, hn⟩ := List.mem_iff_getElem?.mp hg
  -- The n-th handover is of the n-th fragment that the task owes for, and of the n-th answer.
  have howed : task.owed[n]? = some g.source := by
    rw [← hsources, List.getElem?_map, hn]
    rfl
  have hpartition := Task.owed_partition (List.mem_of_getElem? howed)
  refine ⟨task, htask, calls, [], task.toBatch inputs last token,
    more.map fun h => (h.source.dependency, h.table), n, g.source.dependency, ?_, rfl, rfl, ?_, ?_,
    ?_⟩
  · rw [hjournal]
  · rw [← hjournal]
    exact hanswer
  · rw [List.getElem?_map, hn]
    rfl
  · rw [howed, ← hpartition]

/-- Sending a task hands over what its fragments owe. The engine answers in the order of the
fragments, and each answer is given to the fragment that has waited longest under its key, so that
handovers and sends can be listed side by side. -/
theorem Tracked.dispatch {task : Task} (h : Tracked tasks token s₀ t₀ order given s t)
    (hanswers : s₀.engine.AnswersInOrder) (htask : task ∈ tasks)
    (hdispatch : s.dispatch t task token = .ok (s', t', .ok ())) :
    ∃ more, Tracked tasks token s₀ t₀ (order ++ [task]) (given ++ more) s' t' := by
  have hwaiting := waiting_dispatch hdispatch
  obtain ⟨m, inputs, hm, rfl, ⟨_, _, _, hfailed⟩ | ⟨answer, hanswer, hfold, _⟩⟩ :=
    dispatch_ok hdispatch
  · cases hfailed
  · obtain ⟨r, hr, rfl⟩ := takeInputs_ok hm
    obtain ⟨hbooks, hresults⟩ := Round.takeInputs_ok hr
    have hopen : (t.setRound r).Accepting :=
      ⟨h.accepting.unfinished, h.accepting.unfailed, h.accepting.started⟩
    have hinorder : answer.map Prod.fst = task.owed.map Awaited.dependency := by
      rw [Task.owed_dependency task inputs s.lastCommitted? token]
      exact hanswers _ _ _ _ (h.engine ▸ hanswer)
    obtain ⟨hfinal, more, hsources, htables, hhands⟩ :=
      hopen.hands (fun _ => Task.owed_partition) hinorder hfold
    -- Taking the inputs out of the records loses results that were handed over, and no others.
    have hawaited : r.awaited = t.round.awaited := by rw [hbooks]
    have hfewer : r.Matched (tasks.flatMap Task.owed) given :=
      h.matched.of_fewer hawaited fun i d => by
        rcases hresults i d with hsame | hempty
        · exact .inl (by rw [hsame])
        · exact .inr (by rw [hempty])
    obtain ⟨c, hc⟩ := h.balanced
    obtain ⟨hbalanced, hmatched⟩ := hhands.matched hopen ⟨c, hc.takeInputs hr⟩ hfewer
    rw [← htables] at hanswer
    obtain ⟨calls, hcalls⟩ := h.journal
    refine ⟨more, {
      sends := h.sends.send hm hanswer hsources hhands
      engine := h.engine
      journal := ⟨calls ++ [.execute task.destination
        (task.toBatch inputs s.lastCommitted? token)], ?_⟩
      known := fun x hx => ?_
      waiting := fun x hx => h.waiting x (hwaiting x hx)
      accepting := hfinal
      balanced := hbalanced
      sources := ?_
      matched := hmatched
      produced := fun g hg => ?_ }⟩
    · show s.journal ++ _ = _
      rw [hcalls, List.append_assoc]
    · rcases List.mem_append.mp hx with hold | hnew
      · exact h.known x hold
      · exact List.mem_singleton.mp hnew ▸ htask
    · rw [List.map_append, hsources, h.sources, List.flatMap_append, List.flatMap_singleton]
    · rcases List.mem_append.mp hg with hold | hnew
      · exact (h.produced g hold).append _
      · exact produced_of_answer htask hcalls (h.engine ▸ hanswer) hsources hnew

/-- A batch that has sent all its tasks without a failure has run them in an order, with
handovers of their results. -/
theorem Opened.tracked {ready : List Task} {fuel : Nat} (h : Opened tasks token t₀ t)
    (hready : ∀ task ∈ ready, task ∈ tasks) (hopen : t.Accepting)
    (hanswers : s₀.engine.AnswersInOrder)
    (hwaves : dispatchWaves token fuel s₀ t ready = .ok (s', t', .ok ())) :
    ∃ order given, Tracked tasks token s₀ t order given s' t' := by
  have hstart : Tracked tasks token s₀ t [] [] s₀ t :=
    ⟨.start, rfl, ⟨[], by simp⟩, by simp, h.waiting, hopen, h.balanced, rfl,
      Round.matched_start h.awaited h.results, by simp⟩
  refine dispatchWaves_keeps tasks
    (P := fun s₁ t₁ sent => sent = .ok () → ∃ order given,
      Tracked tasks token s₀ t order given s₁ t₁)
    (fun hP htask hdispatch hsent => ?_) (fun hP _ => ?_) (fun hP => ?_) hready
    (fun _ => ⟨[], [], hstart⟩) hwaves rfl
  -- Sending appends the task and its handovers; a wave and the tasks waiting leave both as they
  -- are.
  · subst hsent
    obtain ⟨order, given, htracked⟩ := hP rfl
    obtain ⟨more, hmore⟩ := htracked.dispatch hanswers htask hdispatch
    exact ⟨_, _, hmore⟩
  · obtain ⟨order, given, htracked⟩ := hP rfl
    exact ⟨order, given, htracked.wave⟩
  · obtain ⟨order, given, htracked⟩ := hP rfl
    exact htracked.waiting

/-! ### A batch that returns results -/

/-- The results of a round are held by the entries of the statements. The one at a position is the
first result in the entry of the output there. -/
theorem results_ok {r : Round} {txn : TxnId} {results : List ResultTable}
    (h : r.results txn = .ok results) {i : Nat} {table : ResultTable}
    (htable : results[i]? = some table) : ∃ d p, (p, table) ∈ (r.entry i d).results := by
  -- Results are read position by position, from the record of the output at that position.
  obtain ⟨⟨d, j⟩, hposition, hresult⟩ := Outcome.mapM_ok h htable
  rw [List.getElem?_zipIdx, Nat.zero_add, Option.map_eq_some_iff] at hposition
  obtain ⟨c, _, hpair⟩ := hposition
  obtain ⟨rfl, rfl⟩ := Prod.mk.inj hpair
  unfold Round.resultAt at hresult
  split at hresult
  · cases hresult
  · next e he =>
    split at hresult
    · cases hresult
    · next first hfirst =>
      cases hresult
      obtain ⟨⟨p, _⟩, hhead, rfl⟩ := Option.map_eq_some_iff.mp hfirst
      refine ⟨c, p, ?_⟩
      rw [Round.entry_of_record? he]
      exact List.mem_of_head? hhead

/-- A wait that ends because the results are there takes no error. -/
theorem round_of_wait_ready {timeout : Option Nat} (h : t.wait timeout = (t', .ready)) :
    t'.round = t.round := by
  rw [eq_of_wait_ready h]
  rfl

/-- A round that is closed has received a result for every fragment that owed one. -/
theorem closeRound_counters {results : List ResultTable}
    (h : closeRound t tasks = .ok (t', results)) : t.round.expected = t.round.received := by
  obtain ⟨_, hfinish⟩ := closeRound_ok h
  have hbase := base_mem_participants t.admission.base tasks
  cases hps : participants t.admission.base tasks with
  | nil => rw [hps] at hbase; cases hbase
  | cons p rest =>
    rw [hps] at hfinish
    obtain ⟨m, hm, _⟩ := Outcome.foldlM_cons_ok hfinish
    exact (finishRound_ok hm).2.1

/-- A finished transaction drops every result. -/
theorem addResults_of_finished {deliveries : Deliveries} {p : Nat}
    (h : deliveries.foldlM (fun t (x : DependencyId × ResultTable) =>
      t.addResult ⟨p, x.1, x.2⟩) t = .ok t') (hfinished : t.isFinished = true) : t' = t := by
  induction deliveries generalizing t with
  | nil => cases h; rfl
  | cons x rest ih =>
    obtain ⟨m, hm, hrest⟩ := Outcome.foldlM_cons_ok h
    rcases addResult_ok hm with ⟨_, rfl⟩ | ⟨hopen, _⟩
    · exact ih hrest hfinished
    · rw [hfinished] at hopen
      cases hopen

/-- So its entries stay empty while a batch is sent. A finished transaction drops every result; the
engine is asked all the same, and its answers are lost. -/
theorem Opened.dropped {ready : List Task} {fuel : Nat} (h : Opened tasks token t₀ t)
    (hready : ∀ task ∈ ready, task ∈ tasks) (hfinished : t.isFinished = true)
    (hwaves : dispatchWaves token fuel s₀ t ready = .ok (s', t', .ok ())) :
    t'.round.order ≠ [] ∧ ∀ i d, (t'.round.entry i d).results = [] := by
  -- What the waves keep: the transaction stays finished, and so nothing arrives.
  have hend := dispatchWaves_keeps tasks
    (P := fun _ t₁ sent => sent = .ok () → t₁.isFinished = true
      ∧ (∀ task ∈ t₁.round.waiting, task ∈ tasks) ∧ t₁.round.order ≠ []
      ∧ ∀ i d, (t₁.round.entry i d).results = [])
    (fun {_ t₁ _ _ _ _} hP htask hdispatch hsent => ?_) (fun hP _ => ?_) (fun hP => (hP rfl).2.1)
    hready
    (fun _ => ⟨hfinished, h.waiting, h.order, h.results⟩) hwaves rfl
  · exact hend.2.2
  · subst hsent
    obtain ⟨hfinished, hwaiting, horder, hresults⟩ := hP rfl
    have hknown := waiting_dispatch hdispatch
    obtain ⟨m, inputs, hm, _, ⟨_, _, _, hfailed⟩ | ⟨answer, _, hfold, _⟩⟩ := dispatch_ok hdispatch
    · cases hfailed
    · obtain ⟨r, hr, rfl⟩ := takeInputs_ok hm
      obtain ⟨hbooks, hentry⟩ := Round.takeInputs_ok hr
      have hsame := addResults_of_finished hfold hfinished
      subst hsame
      refine ⟨hfinished, fun x hx => hwaiting x (hknown x hx), ?_, fun i d => ?_⟩
      · have hkept : r.order = t₁.round.order := by rw [hbooks]
        exact hkept ▸ horder
      · rcases hentry i d with hsame | hempty
        · exact (congrArg DependencyRecord.results hsame).trans (hresults i d)
        · exact congrArg DependencyRecord.results hempty
  · obtain ⟨hfinished, hwaiting, horder, hresults⟩ := hP rfl
    refine ⟨hfinished, fun x hx => hwaiting x ?_, horder, hresults⟩
    exact List.mem_append_left _ (by simpa [Round.waiting, takeUnblocked] using hx)

/-- A batch that returns results has opened its round, taken in results while it sent its
tasks, and received one for every fragment that owed one. -/
theorem execute_results_ok [Scalar R] {a a' : Admitted R} {results : List ResultTable}
    (h : s.execute a tasks = .ok (s', a', .ok results)) :
    ∃ t ready s₁ t₁, openRound a.txn tasks s.nextToken = .ok (t, ready) ∧ t.Accepting
      ∧ dispatchWaves s.nextToken (tasks.length + 1) { s with nextToken := s.nextToken + 1 } t ready
        = .ok (s₁, t₁, .ok ())
      ∧ s'.journal = s₁.journal ∧ t₁.round.expected = t₁.round.received
      ∧ t₁.round.results t₁.admission.txn = .ok results := by
  rcases execute_ok h with ⟨_, _, e, herror⟩ | ⟨t, ready, s₁, t₁, sent, habort, _, hopen, hwaves,
    hjournal, _, _, hresults⟩
  · cases herror
  · obtain ⟨rfl, t₂, t₃, hwait, hclose⟩ := hresults results rfl
    obtain ⟨hopened, hready⟩ := openRound_ok hopen
    have hround := round_of_wait_ready hwait
    have hadmission : t₂.admission = t₁.admission := by
      have hwork := sameWork_wait t₁ s₁.config.latchTimeout
      rw [hwait] at hwork
      exact hwork.admission
    have hread : t₁.round.results t₁.admission.txn = .ok results := by
      rw [← hround, ← hadmission]
      exact (closeRound_ok hclose).1
    have hunfinished : t.isFinished = false := by
      cases hfinished : t.isFinished with
      | false => rfl
      | true =>
        -- Results that were dropped cannot be read.
        obtain ⟨horder, hempty⟩ := hopened.dropped hready hfinished hwaves
        have hlength : 0 < results.length := by
          rw [Outcome.length_mapM hread, List.length_zipIdx]
          exact List.length_pos_iff.mpr horder
        obtain ⟨d, p, hmem⟩ := results_ok hread (List.getElem?_eq_getElem hlength)
        rw [hempty] at hmem
        cases hmem
    have hunfailed : t.hasFailed = false := by
      rw [hasFailed, hopened.errors.abortReason, habort]
      rfl
    exact ⟨t, ready, s₁, t₁, hopen, ⟨hunfinished, hunfailed, hopened.started⟩, hwaves, hjournal,
      hround ▸ closeRound_counters hclose, hread⟩

/-- A batch that returns results has run tasks in an order and handed over their results,
until no fragment owed one any more. -/
theorem execute_tracked [Scalar R] {a a' : Admitted R} {results : List ResultTable}
    (hanswers : s.engine.AnswersInOrder)
    (h : s.execute a tasks = .ok (s', a', .ok results)) :
    ∃ t ready order given s₁ t₁, openRound a.txn tasks s.nextToken = .ok (t, ready)
      ∧ Tracked tasks s.nextToken { s with nextToken := s.nextToken + 1 } t order given s₁ t₁
      ∧ s'.journal = s₁.journal ∧ t₁.round.awaited = []
      ∧ t₁.round.results t₁.admission.txn = .ok results := by
  obtain ⟨t, ready, s₁, t₁, hopen, haccepting, hwaves, hjournal, hcounters, hread⟩ :=
    execute_results_ok h
  obtain ⟨hopened, hready⟩ := openRound_ok hopen
  have hsame : { s with nextToken := s.nextToken + 1 }.engine.AnswersInOrder := hanswers
  obtain ⟨order, given, htracked⟩ := hopened.tracked hready haccepting hsame hwaves
  obtain ⟨c, hc⟩ := htracked.balanced
  exact ⟨t, ready, order, given, s₁, t₁, hopen, htracked, hjournal,
    hc.awaited_eq_nil hcounters, hread⟩

/-- Per key, the statements that results were given to are those that were registered. -/
theorem Tracked.recipients (h : Tracked tasks token s₀ t₀ order given s t)
    (hawaited : t.round.awaited = []) (p : Nat) (d : DependencyId) :
    (given.filter (Handover.isUnder p d)).map Handover.recipient
      = Task.statementsUnder p d tasks := by
  have hstatements := h.matched.statements p d
  rw [hawaited] at hstatements
  simpa [Task.statementsUnder] using hstatements

/-- Per key, the statements that results came from are those that were run. -/
theorem Tracked.sourcesUnder (h : Tracked tasks token s₀ t₀ order given s t) (p : Nat)
    (d : DependencyId) :
    (given.filter (Handover.isUnder p d)).map (fun g => g.source.statement)
      = Task.statementsUnder p d order := by
  rw [Task.statementsUnder, ← h.sources, List.filter_map, List.map_map]
  rfl

/-- So all results stayed with their statements if and only if statements were run in the
order in which they were registered, key by key. -/
theorem Tracked.own_iff (h : Tracked tasks token s₀ t₀ order given s t)
    (hawaited : t.round.awaited = []) :
    (∀ g ∈ given, g.recipient = g.source.statement)
      ↔ ∀ p d, Task.statementsUnder p d order = Task.statementsUnder p d tasks := by
  constructor
  · intro hown p d
    rw [← h.sourcesUnder, ← h.recipients hawaited]
    refine List.map_congr_left fun g hg => ?_
    exact (hown g (List.mem_filter.mp hg).1).symm
  · intro hsame g hg
    have hlists := (h.sourcesUnder g.source.partition g.source.dependency).trans
      ((hsame _ _).trans (h.recipients hawaited _ _).symm)
    have hunder : g.isUnder g.source.partition g.source.dependency = true :=
      Awaited.isUnder_iff.mpr ⟨rfl, rfl⟩
    exact (List.map_inj_left.mp hlists g (List.mem_filter.mpr ⟨hg, hunder⟩)).symm

/-- The result at a position was handed over to the statement at that position. -/
theorem Tracked.result {txn : TxnId} {results : List ResultTable} {i : Nat}
    {table : ResultTable} (h : Tracked tasks token s₀ t₀ order given s t)
    (hread : t.round.results txn = .ok results) (htable : results[i]? = some table) :
    ∃ g ∈ given, g.recipient = i ∧ g.table = table
      ∧ Produced s₀.engine s₀.journal s.journal token tasks g.source.statement table := by
  obtain ⟨d, p, hmem⟩ := results_ok hread htable
  obtain ⟨g, hg, hrecipient, hdelivery⟩ := h.matched.results i d p table hmem
  have hgtable : g.table = table := congrArg Delivery.table hdelivery
  exact ⟨g, hg, hrecipient, hgtable, hgtable ▸ h.produced g hg⟩

/-- For executors that answer in the order of fragments, a batch that returns results has
run its tasks in some order, with handovers of their results, such that

- the result at each position was handed over to the statement at that position, and an
  executor produced it for the statement of the handover's source;
- every result was given to the statement that it was produced for if and only if, for
  each partition and dependency, the statements were run in the order in which they were
  registered;
- and then every result is one that an executor produced for the statement at its
  position. -/
theorem execute_results [Scalar R] {a a' : Admitted R} {results : List ResultTable}
    (hanswers : s.engine.AnswersInOrder)
    (h : s.execute a tasks = .ok (s', a', .ok results)) :
    ∃ t ready order given s₁ t₁, openRound a.txn tasks s.nextToken = .ok (t, ready)
      ∧ Sends s.nextToken { s with nextToken := s.nextToken + 1 } t order given s₁ t₁
      ∧ s'.journal = s₁.journal ∧ (∀ task ∈ order, task ∈ tasks)
      ∧ (∀ i table, results[i]? = some table → ∃ h ∈ given, h.recipient = i ∧ h.table = table
          ∧ Produced s.engine s.journal s'.journal s.nextToken tasks h.source.statement table)
      ∧ ((∀ h ∈ given, h.recipient = h.source.statement)
          ↔ ∀ p d, Task.statementsUnder p d order = Task.statementsUnder p d tasks)
      ∧ ((∀ p d, Task.statementsUnder p d order = Task.statementsUnder p d tasks) →
          OwnResults s.engine s.journal s'.journal s.nextToken tasks results) := by
  obtain ⟨t, ready, order, given, s₁, t₁, hopen, htracked, hjournal, hawaited, hread⟩ :=
    execute_tracked hanswers h
  have hiff := htracked.own_iff hawaited
  rw [hjournal]
  -- When every result was given to its own statement, so was the one at each position.
  refine ⟨t, ready, order, given, s₁, t₁, hopen, htracked.sends, rfl, htracked.known,
    fun i table htable => htracked.result hread htable, hiff, fun hsame i table htable => ?_⟩
  obtain ⟨g, hg, rfl, _, hproduced⟩ := htracked.result hread htable
  rw [hiff.mpr hsame g hg]
  exact hproduced

/-- If no two statements owe results under the same partition and dependency, the order
does not matter: every result is one that was produced for the statement at its
position. -/
theorem execute_results_of_separate [Scalar R] {a a' : Admitted R} {results : List ResultTable}
    (hanswers : s.engine.AnswersInOrder)
    (hseparate : ∀ x ∈ tasks.flatMap Task.owed, ∀ y ∈ tasks.flatMap Task.owed,
      x.partition = y.partition → x.dependency = y.dependency → x.statement = y.statement)
    (h : s.execute a tasks = .ok (s', a', .ok results)) :
    OwnResults s.engine s.journal s'.journal s.nextToken tasks results := by
  obtain ⟨t, ready, order, given, s₁, t₁, _, htracked, hjournal, hawaited, hread⟩ :=
    execute_tracked hanswers h
  intro i table htable
  obtain ⟨g, hg, hrecipient, _, hproduced⟩ := htracked.result hread htable
  -- The source was run, so it was registered; the recipient was registered under its key.
  have hsource : g.source ∈ tasks.flatMap Task.owed := by
    have hrun : g.source ∈ order.flatMap Task.owed :=
      htracked.sources ▸ List.mem_map_of_mem hg
    obtain ⟨task, htask, howed⟩ := List.mem_flatMap.mp hrun
    exact List.mem_flatMap.mpr ⟨task, htracked.known task htask, howed⟩
  have hunder : g.isUnder g.source.partition g.source.dependency = true :=
    Awaited.isUnder_iff.mpr ⟨rfl, rfl⟩
  have hmem : g.recipient ∈ Task.statementsUnder g.source.partition g.source.dependency tasks := by
    rw [← htracked.recipients hawaited]
    exact List.mem_map_of_mem (List.mem_filter.mpr ⟨hg, hunder⟩)
  obtain ⟨x, hx, hstatement⟩ := List.mem_map.mp hmem
  obtain ⟨hregistered, hkey⟩ := List.mem_filter.mp hx
  obtain ⟨hpartition, hdependency⟩ := Awaited.isUnder_iff.mp hkey
  have hown := hseparate x hregistered g.source hsource hpartition hdependency
  rw [hjournal, ← hrecipient, ← hstatement, hown]
  exact hproduced

/-! ### A batch in two orders -/

/-- The site of the examples has an executor that answers each batch in the order of its fragments.
-/
theorem soloSite_answersInOrder : soloSite.engine.AnswersInOrder := by
  intro history p b answer h
  cases h
  rw [List.map_map]
  exact List.map_id _

/-- Two statements, the first of which is ready at once. -/
def listing : List Task :=
  [⟨1, 1, 0, [⟨100, 0, 0, none, some 5, []⟩]⟩, ⟨2, 1, 0, [⟨200, 1, 1, none, some 5, []⟩]⟩]

/-- Both statements owe their results under the same dependency, and both get their own. -/
theorem execute_results_listing :
    ∃ (s s' : Site Rat) (a a' : Admitted Rat),
      soloSite.begin "transfer" [] 1 = .ok (s, .ok a) ∧ s.engine.AnswersInOrder
        ∧ s.execute a listing = .ok (s', a', .ok [namingTable [100], namingTable [200]])
        ∧ ∃ h : Handover, h.recipient = 1 ∧ h.table = namingTable [200] := by
  have hrun : ∃ (s s' : Site Rat) (a a' : Admitted Rat),
      soloSite.begin "transfer" [] 1 = .ok (s, .ok a) ∧ s.engine = soloSite.engine
        ∧ s.execute a listing = .ok (s', a', .ok [namingTable [100], namingTable [200]]) :=
    ⟨_, _, _, _, rfl, rfl, rfl⟩
  obtain ⟨s, s', a, a', hbegin, hengine, hexecute⟩ := hrun
  have hanswers : s.engine.AnswersInOrder := hengine ▸ soloSite_answersInOrder
  obtain ⟨_, _, _, _, _, _, _, _, _, _, hresults, _, _⟩ := execute_results hanswers hexecute
  obtain ⟨h, _, hrecipient, htable, _⟩ := hresults 1 _ rfl
  exact ⟨s, s', a, a', hbegin, hanswers, hexecute, h, hrecipient, htable⟩

/-- Two statements, the first of which waits for an input of its own. -/
def report : List Task :=
  [⟨1, 1, 0, [⟨101, 0, 0, some 9, some 5, []⟩]⟩, ⟨2, 1, 0, [⟨100, 0, 0, none, some 9, []⟩]⟩,
    ⟨3, 1, 0, [⟨200, 1, 1, none, some 5, []⟩]⟩]

/-- The second statement runs while the first one waits, under the same dependency. So its
result is given to the first statement, and that one's to it. -/
theorem results_swapped :
    ∃ (s s' : Site Rat) (a a' : Admitted Rat),
      soloSite.begin "transfer" [] 1 = .ok (s, .ok a) ∧ s.engine.AnswersInOrder
        ∧ s.execute a report = .ok (s', a', .ok [namingTable [200], namingTable [101]])
        ∧ ¬ OwnResults s.engine s.journal s'.journal s.nextToken report
          [namingTable [200], namingTable [101]] := by
  refine ⟨_, _, _, _, rfl, soloSite_answersInOrder, rfl, fun hown => ?_⟩
  obtain ⟨task, htask, before, after, b, answer, n, d, _, hfragments, _, hanswer, htable, howed⟩ :=
    hown 0 _ rfl
  cases hanswer
  rw [List.getElem?_map, Option.map_eq_some_iff] at htable
  obtain ⟨c, _, hpair⟩ := htable
  have hsame : namingTable b.fragments = namingTable [200] := (Prod.mk.inj hpair).2
  rw [hfragments] at hsame
  simp only [report, List.mem_cons, List.not_mem_nil, or_false] at htask
  rcases htask with rfl | rfl | rfl
  · exact absurd hsame (by decide)
  · exact absurd hsame (by decide)
  · -- Only the last task ran the fragment of the result, and it is not of statement zero.
    have hmem := List.mem_of_getElem? howed
    simp [Task.owed, Fragment.owed] at hmem

end Site

end TxnPath
