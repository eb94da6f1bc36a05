import Mathlib.Logic.Relation
import TxnPath.Proofs.Site.Matching
import TxnPath.Proofs.Txn.Release

/-!
# `TxnPath.Proofs.Site.Completion`: which tasks a batch sends

A batch sends a task as soon as a result leaves all its inputs complete at once, and it
ends when no result is outstanding. Whether every task was sent is not looked at: a task
that owes no result can stay blocked while the batch returns its results.

A batch is followed step by step (`Dispatching.Step`): it sends a task, takes in a result,
or takes up the next wave. `Dispatching.Sound` is what every step keeps, and
`dispatchWaves_run` is the run of a batch whose waves all succeed.

`execute_sends` says of every batch that returns results what was sent:

* its tasks are those sent, once each, and those left behind;
* no task is sent before every record that it consumes from is `Supplied`;
* a task is sent if and only if its inputs were complete at once at some moment of the run
  (`Freed`). If that never happens, then nothing in the batch produces one of the inputs, or
  a task that was sent has taken it;
* if executors answer each output once, no task that owes a result is left behind.

`orphan_left_behind` is a batch that leaves a task behind.
-/

set_option autoImplicit false

namespace TxnPath

/-- The executors answer each output of a batch once, in any order. -/
def Engine.AnswersEach (e : Engine) : Prop :=
  ∀ history p b answer, e.execute history p b = .ok answer → (answer.map Prod.fst).Perm b.outputs

/-- The call asks the executor of the task's partition to run it, under an undo token. -/
def Task.IsCall (token : Nat) (task : Task) (call : EngineCall) : Prop :=
  ∃ inputs last, call = .execute task.destination (task.toBatch inputs last token)

/-- Some task of the batch produces the dependency of the statement, and no result for it is
outstanding any more. -/
def Round.Supplied (tasks : List Task) (r : Round) (i : Nat) (d : DependencyId) : Prop :=
  (∃ t ∈ tasks, t.Produces i d) ∧ r.pending i d = 0

/-- A task owes nothing if it has no outputs. -/
theorem Task.owed_eq_nil_iff {t : Task} : t.owed = [] ↔ t.hasOutputs = false := by
  rw [owed, Fragment.owed, List.filterMap_eq_nil_iff, hasOutputs, List.any_eq_false]
  refine forall₂_congr fun f _ => ?_
  cases f.output <;> simp

namespace Site

open Transaction

variable {R : Type}

/-- A batch between two of its steps. -/
structure Dispatching (R : Type) where
  /-- The site. -/
  site : Site R
  /-- The transaction. -/
  txn : Transaction
  /-- The tasks that have been sent, in order. -/
  sent : List Task
  /-- The tasks of the wave that are still to be sent, in order. -/
  ready : List Task
  /-- The results of the last task that are still to be taken in, in order. -/
  incoming : List Delivery

namespace Dispatching

/-- One step of a batch under an undo token. It sends the next task of the wave, takes in
the next result, or takes up the next wave. -/
inductive Step (token : Nat) : Dispatching R → Dispatching R → Prop
  | send {s : Site R} {t m : Transaction} {sent rest : List Task} {task : Task}
      {inputs : List (DependencyId × List ResultTable)} {answer : Deliveries}
      (hinputs : t.takeInputs task = .ok (m, inputs))
      (hanswer : s.engine.execute s.journal task.destination
        (task.toBatch inputs s.lastCommitted? token) = .ok answer) :
      Step token ⟨s, t, sent, task :: rest, []⟩
        ⟨{ s with journal := s.journal
            ++ [.execute task.destination (task.toBatch inputs s.lastCommitted? token)] },
          m, sent ++ [task], rest, answer.map fun x => ⟨task.destination, x.1, x.2⟩⟩
  | receive {s : Site R} {t t' : Transaction} {sent ready : List Task} {x : Delivery}
      {rest : List Delivery} (hresult : t.addResult x = .ok t') :
      Step token ⟨s, t, sent, ready, x :: rest⟩ ⟨s, t', sent, ready, rest⟩
  | wave {s : Site R} {t : Transaction} {sent : List Task} :
      Step token ⟨s, t, sent, [], []⟩ ⟨s, t.takeUnblocked.1, sent, t.takeUnblocked.2, []⟩

/-- A batch has gone through any number of steps. -/
abbrev Run (token : Nat) : Dispatching R → Dispatching R → Prop :=
  Relation.ReflTransGen (Step token)

/-- At some moment of the run all inputs of the task were complete at once. -/
def Freed (token : Nat) (start last : Dispatching R) (task : Task) : Prop :=
  ∃ k, Run token start k ∧ Run token k last ∧ k.txn.round.inputsReady task = true

/-- Nothing is left to be sent or to be taken in. -/
def Over (k : Dispatching R) : Prop :=
  k.ready = [] ∧ k.incoming = [] ∧ k.txn.round.unblocked = []

/-- The tasks that can go on, or have gone on. -/
def going (k : Dispatching R) : List Task := k.sent ++ (k.ready ++ k.txn.round.unblocked)

/-- The steps of a batch are determined, so that it has one run only. A result that has arrived is
received first; tasks are sent when there is none, and the next wave begins when all are sent. -/
theorem Step.unique {token : Nat} {k m n : Dispatching R} (h : Step token k m)
    (h' : Step token k n) : m = n := by
  cases h with
  | send hinputs hanswer =>
    cases h' with
    | send hinputs' hanswer' =>
      obtain ⟨rfl, rfl⟩ := Prod.mk.inj (Except.ok.inj (hinputs.symm.trans hinputs'))
      obtain rfl := Except.ok.inj (hanswer.symm.trans hanswer')
      rfl
  | receive hresult =>
    cases h' with
    | receive hresult' =>
      obtain rfl := Except.ok.inj (hresult.symm.trans hresult')
      rfl
  | wave =>
    cases h'
    rfl

end Dispatching

open Dispatching

variable {s s' s₀ : Site R} {t t' t₀ : Transaction} {token : Nat} {tasks ready sent : List Task}

/-! ### The run of a batch -/

/-- Taking in results one after the other is a run. -/
theorem addResults_run {p : Nat} {answer : Deliveries}
    (h : answer.foldlM (fun t (x : DependencyId × ResultTable) => t.addResult ⟨p, x.1, x.2⟩) t
      = .ok t') :
    Run token ⟨s, t, sent, ready, answer.map fun x => ⟨p, x.1, x.2⟩⟩ ⟨s, t', sent, ready, []⟩ := by
  induction answer generalizing t with
  | nil =>
    cases h
    exact .refl
  | cons x rest ih =>
    obtain ⟨m, hm, hrest⟩ := Outcome.foldlM_cons_ok h
    exact .head (.receive hm) (ih hrest)

/-- Sending a wave is a run that ends when all its tasks are sent. Every task is a step of sending,
followed by one step of receiving for each result that it brought. -/
theorem dispatchAll_run (h : dispatchAll token s t ready = .ok (s', t', .ok ())) :
    Run token ⟨s, t, sent, ready, []⟩ ⟨s', t', sent ++ ready, [], []⟩ := by
  induction ready generalizing s t sent with
  | nil =>
    cases h
    rw [List.append_nil]
  | cons task rest ih =>
    unfold dispatchAll at h
    split at h
    · cases h
    · cases h
    · next s₁ t₁ hdispatch =>
      obtain ⟨m, inputs, hm, rfl, ⟨_, _, _, hfailed⟩ | ⟨answer, hanswer, hfold, _⟩⟩ :=
        dispatch_ok hdispatch
      · cases hfailed
      · have hrest : Run token _ ⟨s', t', (sent ++ [task]) ++ rest, [], []⟩ := ih h
        rw [List.append_assoc, List.singleton_append] at hrest
        -- One step sends the task, and as many follow as results have come back from it.
        exact .head (.send hm hanswer) ((addResults_run hfold).trans hrest)

/-! ### What every step keeps -/

/-- What holds of a batch while it is dispatched, since its round was open as `t₀`. -/
structure Dispatching.Sound (tasks : List Task) (token : Nat) (s₀ : Site R) (t₀ : Transaction)
    (k : Dispatching R) : Prop where
  engine : k.site.engine = s₀.engine
  accepting : k.txn.Accepting
  balanced : ∃ c, k.txn.round.Balanced c
  watched : k.txn.round.Watched
  whole : (k.sent ++ (k.ready ++ k.txn.round.waiting)).Perm tasks
  calls : ∃ calls, k.site.journal = s₀.journal ++ calls
    ∧ List.Forall₂ (Task.IsCall token) k.sent calls
  producers : ∀ i d, (k.txn.round.entry i d).producers = (t₀.round.entry i d).producers
  supplied : ∀ task ∈ k.ready ++ k.txn.round.unblocked, ∀ i d, task.Consumes i d →
    (t₀.round.entry i d).producers ≠ [] ∧ k.txn.round.pending i d = 0
  untaken : ∀ i d, k.txn.round.held i d + k.txn.round.pending i d
      = (t₀.round.entry i d).producers.length ∨ ∃ task ∈ k.sent, task.Consumes i d
  owed : s₀.engine.AnswersEach → k.txn.round.awaited.length + (k.sent.flatMap Task.owed).length
    = (tasks.flatMap Task.owed).length + k.incoming.length

namespace Dispatching.Sound

variable {k m : Dispatching R}

/-- Sending a task takes the results of its inputs out of their records. The engine's answer waits
as deliveries, to be received one after the other. -/
theorem send {t m : Transaction} {rest : List Task} {task : Task}
    {inputs : List (DependencyId × List ResultTable)} {answer : Deliveries}
    (h : Sound tasks token s₀ t₀ ⟨s, t, sent, task :: rest, []⟩)
    (hinputs : t.takeInputs task = .ok (m, inputs))
    (hanswer : s.engine.execute s.journal task.destination
      (task.toBatch inputs s.lastCommitted? token) = .ok answer) :
    Sound tasks token s₀ t₀
      ⟨{ s with journal := s.journal
          ++ [.execute task.destination (task.toBatch inputs s.lastCommitted? token)] },
        m, sent ++ [task], rest, answer.map fun x => ⟨task.destination, x.1, x.2⟩⟩ := by
  obtain ⟨r, hr, rfl⟩ := takeInputs_ok hinputs
  have hemptied := Round.takeInputs_emptied hr
  obtain ⟨c, hc⟩ := h.balanced
  exact {
    engine := h.engine
    accepting := ⟨h.accepting.unfinished, h.accepting.unfailed, h.accepting.started⟩
    balanced := ⟨c, hc.takeInputs hr⟩
    watched := h.watched.emptied hemptied
    whole := by
      show ((sent ++ [task]) ++ (rest ++ r.waiting)).Perm tasks
      rw [hemptied.waiting, List.append_assoc]
      exact h.whole
    calls := by
      obtain ⟨calls, hcalls, hall⟩ := h.calls
      have hcall : task.IsCall token
          (.execute task.destination (task.toBatch inputs s.lastCommitted? token)) :=
        ⟨inputs, s.lastCommitted?, rfl⟩
      refine ⟨calls ++ [_], ?_, List.rel_append hall (.cons hcall .nil)⟩
      show s.journal ++ _ = _
      rw [← List.append_assoc, ← hcalls]
    producers := fun i d => (hemptied.producers i d).trans (h.producers i d)
    supplied := by
      intro x hx i d hconsumes
      show _ ∧ r.pending i d = 0
      rw [hemptied.pending]
      refine h.supplied x ?_ i d hconsumes
      rcases List.mem_append.mp hx with hready | hgoes
      · exact List.mem_append_left _ (List.mem_cons_of_mem _ hready)
      · exact List.mem_append_right _ (hemptied.unblocked ▸ hgoes)
    untaken := by
      intro i d
      by_cases hconsumes : task.Consumes i d
      · exact .inr ⟨task, List.mem_append_right _ List.mem_cons_self, hconsumes⟩
      · -- The record is none that the task takes from, so it holds what it held.
        have hsame : r.entry i d = t.round.entry i d := by
          refine Round.entry_takeInputs_of_not_named hr ?_
          intro f hf hnamed
          exact hconsumes ⟨f, hf, hnamed.1, hnamed.2⟩
        have hheld : r.held i d = t.round.held i d := by rw [Round.held, hsame]; rfl
        show r.held i d + r.pending i d = _ ∨ _
        rw [hheld, hemptied.pending]
        rcases h.untaken i d with hfull | ⟨x, hx, htaken⟩
        · exact .inl hfull
        · exact .inr ⟨x, List.mem_append_left _ hx, htaken⟩
    owed := by
      intro hanswers
      have hbefore : t.round.awaited.length + (sent.flatMap Task.owed).length
          = (tasks.flatMap Task.owed).length + 0 := h.owed hanswers
      have hlength : answer.length = task.owed.length := by
        have hperm := hanswers _ _ _ _ (h.engine ▸ hanswer)
        rw [← Task.owed_dependency] at hperm
        simpa using hperm.length_eq
      show r.awaited.length + ((sent ++ [task]).flatMap Task.owed).length = _ + _
      rw [hemptied.awaited, List.flatMap_append, List.flatMap_singleton, List.length_append,
        List.length_map]
      omega }

/-- A result goes into a record, and tasks that it leaves ready go on. Such a task has all its
inputs supplied, as a record that is complete is not owed anything. -/
theorem receive {x : Delivery} {rest : List Delivery}
    (h : Sound tasks token s₀ t₀ ⟨s, t, sent, ready, x :: rest⟩)
    (hresult : t.addResult x = .ok t') :
    Sound tasks token s₀ t₀ ⟨s, t', sent, ready, rest⟩ := by
  obtain ⟨haccepting, r, hr, rfl⟩ := h.accepting.addResult hresult
  obtain ⟨hwatched, hmoved, _, hunblocked⟩ := h.watched.accept hr
  have hsettles := Round.accept_settles hr
  obtain ⟨c, hc⟩ := h.balanced
  have hproducers : ∀ i d, (r.entry i d).producers = (t₀.round.entry i d).producers := fun i d =>
    (hsettles.producers i d).trans (h.producers i d)
  exact {
    engine := h.engine
    accepting := haccepting
    balanced := ⟨_, hc.settles hsettles⟩
    watched := hwatched
    whole := ((hmoved.append_left ready).append_left sent).trans h.whole
    calls := h.calls
    producers := hproducers
    supplied := by
      intro task htask i d hconsumes
      -- What was supplied stays so, as results only come in.
      have hold : task ∈ ready ++ t.round.unblocked →
          (t₀.round.entry i d).producers ≠ [] ∧ r.pending i d = 0 := by
        intro hmem
        obtain ⟨hproduced, hnone⟩ := h.supplied task hmem i d hconsumes
        have hle : r.pending i d ≤ t.round.pending i d := hsettles.pending_le i d
        have hnone : t.round.pending i d = 0 := hnone
        exact ⟨hproduced, by omega⟩
      rcases List.mem_append.mp htask with hready | hgoes
      · exact hold (List.mem_append_left _ hready)
      · rcases hunblocked task hgoes with hbefore | hnow
        · exact hold (List.mem_append_right _ hbefore)
        · have hcomplete := Round.inputsReady_iff.mp hnow i d hconsumes
          rw [← hproducers i d]
          exact ⟨(DependencyRecord.isComplete_iff.mp hcomplete).1,
            hwatched.pending_eq_zero hcomplete⟩
    untaken := by
      intro i d
      show r.held i d + r.pending i d = _ ∨ _
      rw [hsettles.conserved]
      exact h.untaken i d
    owed := by
      intro hanswers
      have hbefore : t.round.awaited.length + (sent.flatMap Task.owed).length
          = (tasks.flatMap Task.owed).length + (rest.length + 1) := h.owed hanswers
      show r.awaited.length + (sent.flatMap Task.owed).length = _ + rest.length
      obtain ⟨before, a, after, hsplit, hrest, _⟩ := Round.accept_split hr
      rw [hsplit, List.length_append, List.length_cons] at hbefore
      rw [hrest, List.length_append]
      omega }

/-- The next wave consists of the tasks that could go on. Taking them up moves them from one list to
another; the records, the counters, and what was sent are where they were. -/
theorem wave (h : Sound tasks token s₀ t₀ ⟨s, t, sent, [], []⟩) :
    Sound tasks token s₀ t₀ ⟨s, t.takeUnblocked.1, sent, t.takeUnblocked.2, []⟩ := by
  obtain ⟨c, hc⟩ := h.balanced
  exact {
    engine := h.engine
    accepting := ⟨h.accepting.unfinished, h.accepting.unfailed, h.accepting.started⟩
    balanced := ⟨c, hc.counters, hc.registered, hc.accounted, hc.owed⟩
    watched := ⟨h.watched.distinct, h.watched.unready, h.watched.listed, h.watched.drained,
      h.watched.room⟩
    -- The tasks that went on become the ready ones; nothing else moves.
    whole := by
      refine List.Perm.trans (List.Perm.append_left sent ?_) h.whole
      show (t.round.unblocked ++ (t.round.blocked ++ [])).Perm (t.round.blocked ++ t.round.unblocked)
      rw [List.append_nil]
      exact List.perm_append_comm
    calls := h.calls
    producers := h.producers
    supplied := fun task htask => h.supplied task (by simpa [takeUnblocked] using htask)
    untaken := h.untaken
    owed := h.owed }

/-- Every step keeps it. -/
theorem step (h : Sound tasks token s₀ t₀ k) (hstep : Step token k m) :
    Sound tasks token s₀ t₀ m := by
  cases hstep with
  | send hinputs hanswer => exact h.send hinputs hanswer
  | receive hresult => exact h.receive hresult
  | wave => exact h.wave

/-- So every run keeps it. -/
theorem run (h : Sound tasks token s₀ t₀ k) (hrun : Run token k m) :
    Sound tasks token s₀ t₀ m := by
  induction hrun with
  | refl => exact h
  | tail _ hstep ih => exact ih.step hstep

/-- No step blocks a task. -/
theorem step_blocked (h : Sound tasks token s₀ t₀ k) (hstep : Step token k m) :
    ∀ task ∈ m.txn.round.blocked, task ∈ k.txn.round.blocked := by
  cases hstep with
  | send hinputs hanswer =>
    obtain ⟨r, hr, rfl⟩ := takeInputs_ok hinputs
    have hblocked := (Round.takeInputs_emptied hr).blocked
    exact fun task htask => hblocked ▸ htask
  | receive hresult =>
    obtain ⟨_, r, hr, rfl⟩ := h.accepting.addResult hresult
    exact (h.watched.accept hr).2.2.1
  | wave => exact fun _ htask => htask

/-- So no run does. -/
theorem run_blocked (h : Sound tasks token s₀ t₀ k) (hrun : Run token k m) :
    ∀ task ∈ m.txn.round.blocked, task ∈ k.txn.round.blocked := by
  induction hrun with
  | refl => exact fun _ htask => htask
  | tail hbefore hstep ih =>
    exact fun task htask => ih task ((h.run hbefore).step_blocked hstep task htask)

/-- A task can go on only because its inputs are complete. So it was going before the step, or the
step is the receiving of the last of its inputs. -/
theorem step_going (h : Sound tasks token s₀ t₀ k) (hstep : Step token k m) :
    ∀ task ∈ m.going, task ∈ k.going ∨ m.txn.round.inputsReady task = true := by
  cases hstep with
  | @send s t _ sent rest _ _ _ hinputs hanswer =>
    obtain ⟨r, hr, rfl⟩ := takeInputs_ok hinputs
    have hunblocked : (t.setRound r).round.unblocked = t.round.unblocked :=
      (Round.takeInputs_emptied hr).unblocked
    exact fun task htask => .inl (by simpa [going, hunblocked] using htask)
  -- Only a result changes the lists of tasks. Sending reads the records, and a wave moves tasks on.
  | receive hresult =>
    obtain ⟨_, r, hr, rfl⟩ := h.accepting.addResult hresult
    intro task htask
    rcases List.mem_append.mp htask with hsent | hrest
    · exact .inl (List.mem_append_left _ hsent)
    · rcases List.mem_append.mp hrest with hready | hgoes
      · exact .inl (List.mem_append_right _ (List.mem_append_left _ hready))
      · refine ((h.watched.accept hr).2.2.2 task hgoes).imp_left fun hold => ?_
        exact List.mem_append_right _ (List.mem_append_right _ hold)
  | wave => exact fun task htask => .inl (by simpa [going, takeUnblocked] using htask)

/-- So the inputs of a task that has gone on during a run were complete at once. -/
theorem freed (h : Sound tasks token s₀ t₀ k)
    (hstart : ∀ task ∈ k.going, k.txn.round.inputsReady task = true) (hrun : Run token k m) :
    ∀ task ∈ m.going, Freed token k m task := by
  induction hrun with
  | refl => exact fun task htask => ⟨k, .refl, .refl, hstart task htask⟩
  | tail hbefore hstep ih =>
    intro task htask
    rcases (h.run hbefore).step_going hstep task htask with hold | hready
    · obtain ⟨n, hkn, hnb, hready⟩ := ih task hold
      exact ⟨n, hkn, hnb.tail hstep, hready⟩
    · exact ⟨_, hbefore.tail hstep, .refl, hready⟩

/-- The inputs of a task that is still blocked never were. -/
theorem not_freed (h : Sound tasks token s₀ t₀ k) {task : Task}
    (htask : task ∈ m.txn.round.blocked) : ¬ Freed token k m task := by
  rintro ⟨n, hkn, hnm, hready⟩
  have hn := h.run hkn
  rw [hn.watched.unready task (hn.run_blocked hnm task htask)] at hready
  cases hready

/-- Once no result is outstanding, a blocked task has an input that nothing produced, or
that a task which was sent has taken. -/
theorem left_behind (h : Sound tasks token s₀ t₀ k) (hawaited : k.txn.round.awaited = [])
    {task : Task} (htask : task ∈ k.txn.round.blocked) :
    ∃ i d, task.Consumes i d
      ∧ ((t₀.round.entry i d).producers = [] ∨ ∃ other ∈ k.sent, other.Consumes i d) := by
  obtain ⟨i, d, hconsumes, hincomplete⟩ := Round.exists_incomplete (h.watched.unready task htask)
  refine ⟨i, d, hconsumes, ?_⟩
  have hpending : k.txn.round.pending i d = 0 := by rw [Round.pending, hawaited]; rfl
  rcases h.untaken i d with hfull | htaken
  · -- Nothing was taken out of the record, so that it is complete unless nothing produces it.
    refine .inl (by_contra fun hproduced => ?_)
    rw [hpending, Nat.add_zero] at hfull
    have hcomplete : (k.txn.round.entry i d).isComplete = true := by
      rw [DependencyRecord.isComplete_iff, h.producers]
      exact ⟨hproduced, hfull⟩
    rw [hcomplete] at hincomplete
    cases hincomplete
  · exact .inr htaken

/-- If executors answer each output once, then in the end only tasks without outputs are
blocked: what was sent has been answered, and nothing else is owed. -/
theorem left_without_outputs (h : Sound tasks token s₀ t₀ ⟨s, t, sent, [], []⟩)
    (hawaited : t.round.awaited = []) (hanswers : s₀.engine.AnswersEach) {task : Task}
    (htask : task ∈ t.round.blocked) : task.hasOutputs = false := by
  have hsent : t.round.awaited.length + (sent.flatMap Task.owed).length
      = (tasks.flatMap Task.owed).length + 0 := h.owed hanswers
  have hwhole : ((sent ++ ([] ++ t.round.waiting)).flatMap Task.owed).length
      = (tasks.flatMap Task.owed).length := (h.whole.flatMap_right Task.owed).length_eq
  rw [hawaited, List.length_nil] at hsent
  rw [List.nil_append, List.flatMap_append, List.length_append] at hwhole
  have hnothing : t.round.waiting.flatMap Task.owed = [] := List.length_eq_zero_iff.mp (by omega)
  have hwaits : task ∈ t.round.waiting := List.mem_append_left _ htask
  exact Task.owed_eq_nil_iff.mp (List.flatMap_eq_nil_iff.mp hnothing task hwaits)

end Dispatching.Sound

/-- The waves of a batch, if no task fails, are a run that ends when no task can go on. Every
wave sends some task, so that there are enough of them. -/
theorem dispatchWaves_run {fuel : Nat}
    (hsound : Sound tasks token s₀ t₀ ⟨s, t, sent, ready, []⟩) (hidle : t.round.unblocked = [])
    (hfuel : tasks.length < fuel + sent.length)
    (h : dispatchWaves token fuel s t ready = .ok (s', t', .ok ())) :
    ∃ order, Run token ⟨s, t, sent, ready, []⟩ ⟨s', t', order, [], []⟩
      ∧ t'.round.unblocked = [] := by
  induction fuel generalizing s t sent ready with
  | zero =>
    have hlength := hsound.whole.length_eq
    rw [List.length_append] at hlength
    simp only at hlength
    omega
  | succ fuel ih =>
    cases ready with
    | nil =>
      cases h
      exact ⟨sent, .refl, hidle⟩
    | cons task rest =>
      unfold dispatchWaves at h
      split at h
      · cases h
      · cases h
      · next s₁ t₁ hall =>
        have hwave : Run token ⟨s, t, sent, task :: rest, []⟩
            ⟨s₁, t₁, sent ++ task :: rest, [], []⟩ := dispatchAll_run hall
        -- Every wave sends at least one task, so that the fuel lasts for all of them.
        have hfuel' : tasks.length < fuel + (sent ++ task :: rest).length := by
          rw [List.length_append, List.length_cons]
          omega
        obtain ⟨order, hrun, hend⟩ := ih (hsound.run hwave).wave rfl hfuel' h
        exact ⟨order, hwave.trans (.head .wave hrun), hend⟩

/-! ### The round before the first step -/

/-- The tasks added to a round are those given as ready, which have no inputs, and those
that it blocks. -/
theorem addTasks_prepared (h : addTasks t tasks = .ok (t', ready)) (ht : t.round.Prepared) :
    t'.round.Prepared ∧ t'.round.unblocked = t.round.unblocked
      ∧ (ready ++ t'.round.blocked).Perm (tasks ++ t.round.blocked)
      ∧ ∀ task ∈ ready, task.hasInputs = false := by
  induction tasks generalizing t ready with
  | nil =>
    cases h
    exact ⟨ht, rfl, .refl _, fun _ hmem => absurd hmem List.not_mem_nil⟩
  | cons task rest ih =>
    unfold addTasks at h
    split at h
    · cases h
    · next m isBlocked hm =>
      obtain ⟨_, touched, r, _, hr, rfl⟩ := Transaction.addTask_ok hm
      have hkept : r.unblocked = t.round.unblocked := by rw [(Round.addTask_ok hr).1]
      split at h
      · cases h
      · next t'' others hothers =>
        cases h
        obtain ⟨hprepared, hunblocked, hwhole, hfree⟩ := ih hothers (ht.addTask hr)
        refine ⟨hprepared, hunblocked.trans hkept, ?_⟩
        -- The first task is blocked or ready, and the rest follows it there.
        rcases Round.addTask_cases hr with ⟨_, rfl, hblocked, _⟩ | ⟨hinputs, rfl, hblocked, _⟩
        · refine ⟨hwhole.trans ?_, hfree⟩
          show (rest ++ r.blocked).Perm _
          rw [hblocked, ← List.append_assoc]
          exact List.perm_append_singleton _ _
        · refine ⟨(hwhole.cons task).trans ?_, fun x hx => ?_⟩
          · show (task :: (rest ++ r.blocked)).Perm _
            rw [hblocked]
            rfl
          · rcases List.mem_cons.mp hx with rfl | hx
            · exact hinputs
            · exact hfree x hx

/-- A round is opened with tasks that have no inputs ready and with all others blocked. No result
has come by then, and every task of the batch is in one of the two lists. -/
theorem openRound_prepared (h : openRound t tasks token = .ok (t', ready)) :
    t'.round.Prepared ∧ t'.round.unblocked = []
      ∧ (ready ++ t'.round.blocked).Perm tasks ∧ ∀ task ∈ ready, task.hasInputs = false := by
  obtain ⟨m, n, _, hadd, _, hround, _, _, latch, hfinal⟩ := openRound_split h
  have hempty : (m.setBatchSize (Task.queries tasks).length).round.Prepared := by
    rw [hround]
    exact ⟨List.nodup_nil, fun _ ht => absurd ht List.not_mem_nil,
      fun _ ht => absurd ht List.not_mem_nil, fun _ _ => rfl, fun _ _ => rfl, fun _ _ => rfl⟩
  obtain ⟨hprepared, hunblocked, hwhole, hfree⟩ := addTasks_prepared hadd hempty
  rw [hround] at hunblocked hwhole
  rw [hfinal]
  refine ⟨⟨hprepared.distinct, hprepared.inputs, hprepared.listed, hprepared.unreleased,
    hprepared.results, hprepared.owed⟩, hunblocked, ?_, hfree⟩
  exact hwhole.trans (by rw [show Round.empty.blocked = [] from rfl, List.append_nil])

/-- So a batch starts out sound. No task has been sent and no result has come; the tasks are ready
if they have no inputs, and blocked otherwise. -/
theorem sound_start (h : openRound t tasks token = .ok (t', ready)) (haccepting : t'.Accepting) :
    Sound tasks token s t' ⟨s, t', [], ready, []⟩ := by
  obtain ⟨hopened, _⟩ := openRound_ok h
  obtain ⟨hprepared, hidle, hwhole, hfree⟩ := openRound_prepared h
  exact {
    engine := rfl
    accepting := haccepting
    balanced := hopened.balanced
    watched := hprepared.watched
    -- No task has gone on yet, so that all are ready or blocked.
    whole := by
      show (ready ++ (t'.round.blocked ++ t'.round.unblocked)).Perm tasks
      rw [hidle, List.append_nil]
      exact hwhole
    calls := ⟨[], by rw [List.append_nil], .nil⟩
    producers := fun _ _ => rfl
    -- The tasks that are ready at the start have no inputs.
    supplied := by
      intro task htask i d hconsumes
      have hready : task ∈ ready := by
        simpa only [hidle, List.append_nil] using htask
      have hnone := hfree task hready
      rw [Task.hasInputs_iff.mpr ⟨i, d, hconsumes⟩] at hnone
      cases hnone
    untaken := by
      intro i d
      refine .inl ?_
      show t'.round.held i d + t'.round.pending i d = _
      rw [Round.held, hprepared.results, hprepared.owed, List.length_nil, Nat.zero_add]
    owed := by
      intro _
      show t'.round.awaited.length + _ = _
      rw [hopened.awaited]
      rfl }

/-- Producers are registered for what tasks of the batch produce. -/
theorem producers_ne_nil_iff (h : openRound t tasks token = .ok (t', ready)) {i : Nat}
    {d : DependencyId} :
    (t'.round.entry i d).producers ≠ [] ↔ ∃ task ∈ tasks, task.Produces i d := by
  rw [← List.length_pos_iff, (openRound_prepared h).1.owed, Round.pending,
    (openRound_ok h).1.awaited, List.countP_pos_iff]
  simp only [List.mem_flatMap, Task.produces_iff]
  constructor
  · rintro ⟨a, ⟨task, htask, ha⟩, hfor⟩
    exact ⟨task, htask, a, ha, hfor⟩
  · rintro ⟨task, htask, a, ha, hfor⟩
    exact ⟨a, ⟨task, htask, ha⟩, hfor⟩

/-! ### A batch that returns results -/

/-- A batch that returns results has gone through a run until nothing was left to do, in
which

- it sent some of its tasks, once each, and left the others blocked;
- the calls of executors are those of the tasks sent, in order;
- whenever a task was about to be sent, all that it consumes was supplied;
- the inputs of every task sent were complete at once at some moment, and those of a task
  left behind never were;
- a task left behind consumes something that the batch does not produce, or that a task
  which was sent consumes too;
- a task left behind owes no result, if executors answer each output once. -/
theorem execute_sends [Scalar R] {a a' : Admitted R} {results : List ResultTable}
    (h : s.execute a tasks = .ok (s', a', .ok results)) :
    ∃ (t : Transaction) (ready left : List Task) (start last : Dispatching R)
      (calls : List EngineCall),
      openRound a.txn tasks s.nextToken = .ok (t, ready)
      ∧ start = ⟨{ s with nextToken := s.nextToken + 1 }, t, [], ready, []⟩
      ∧ Run s.nextToken start last ∧ last.Over
      ∧ left = last.txn.round.blocked ∧ (last.sent ++ left).Perm tasks
      ∧ s'.journal = s.journal ++ calls
      ∧ List.Forall₂ (Task.IsCall s.nextToken) last.sent calls
      ∧ (∀ k, Run s.nextToken start k → ∀ task ∈ k.ready, ∀ i d, task.Consumes i d →
          k.txn.round.Supplied tasks i d)
      ∧ (∀ task ∈ last.sent, Freed s.nextToken start last task)
      ∧ (∀ task ∈ left, ¬ Freed s.nextToken start last task)
      ∧ (∀ task ∈ left, ∃ i d, task.Consumes i d
          ∧ ((∀ other ∈ tasks, ¬ other.Produces i d) ∨ ∃ other ∈ last.sent, other.Consumes i d))
      ∧ (s.engine.AnswersEach → ∀ task ∈ left, task.hasOutputs = false) := by
  obtain ⟨t, ready, s₁, t₁, hopen, haccepting, hwaves, hjournal, hcounters, _⟩ :=
    execute_results_ok h
  obtain ⟨_, hidle, _, hfree⟩ := openRound_prepared hopen
  have hstart := sound_start (s := { s with nextToken := s.nextToken + 1 }) hopen haccepting
  obtain ⟨order, hrun, hend⟩ := dispatchWaves_run hstart hidle (by simp) hwaves
  have hlast := hstart.run hrun
  -- The counters agree, so that no result is outstanding.
  obtain ⟨c, hc⟩ := hlast.balanced
  have hawaited : t₁.round.awaited = [] := hc.awaited_eq_nil hcounters
  obtain ⟨calls, hcalls, hall⟩ := hlast.calls
  have hwhole : (order ++ t₁.round.blocked).Perm tasks := by
    have hparts : (order ++ ([] ++ (t₁.round.blocked ++ t₁.round.unblocked))).Perm tasks :=
      hlast.whole
    rwa [hend, List.nil_append, List.append_nil] at hparts
  refine ⟨t, ready, t₁.round.blocked, _, _, calls, hopen, rfl, hrun, ⟨rfl, rfl, hend⟩, rfl, hwhole,
    hjournal.trans hcalls, hall, ?_, ?_, fun task htask => hstart.not_freed htask, ?_,
    fun hanswers task htask => hlast.left_without_outputs hawaited hanswers htask⟩
  · intro k hk task htask i d hconsumes
    obtain ⟨hproduced, hnone⟩ :=
      (hstart.run hk).supplied task (List.mem_append_left _ htask) i d hconsumes
    exact ⟨(producers_ne_nil_iff hopen).mp hproduced, hnone⟩
  · intro task htask
    refine hstart.freed (fun x hx => ?_) hrun task (List.mem_append_left _ htask)
    -- At first only tasks without inputs can go on.
    have hready : x ∈ ready := by simpa [going, hidle] using hx
    exact Round.inputsReady_of_no_inputs (hfree x hready)
  · intro task htask
    obtain ⟨i, d, hconsumes, hcause⟩ := hlast.left_behind hawaited htask
    refine ⟨i, d, hconsumes, hcause.imp_left fun hnone other hother hproduces => ?_⟩
    exact (producers_ne_nil_iff hopen).mpr ⟨other, hother, hproduces⟩ hnone

/-- Two tasks, the second of which consumes what the first produces, and owes nothing. -/
def relay : List Task :=
  [⟨1, 1, 0, [⟨100, 0, 0, none, some 9, []⟩, ⟨101, 0, 0, none, some 10, []⟩]⟩,
    ⟨2, 1, 0, [⟨102, 0, 0, some 9, none, []⟩]⟩]

/-- Both of them are sent. -/
theorem execute_sends_relay :
    ∃ (s s' : Site Rat) (a a' : Admitted Rat),
      soloSite.begin "transfer" [] 1 = .ok (s, .ok a)
        ∧ s.execute a relay = .ok (s', a', .ok [namingTable [100, 101]])
        ∧ ∃ order calls, List.Perm order relay ∧ s'.journal = s.journal ++ calls
          ∧ List.Forall₂ (Task.IsCall s.nextToken) order calls := by
  have hrun : ∃ (s s' : Site Rat) (a a' : Admitted Rat),
      soloSite.begin "transfer" [] 1 = .ok (s, .ok a)
        ∧ s.execute a relay = .ok (s', a', .ok [namingTable [100, 101]])
        ∧ s'.journal.length = s.journal.length + 2 := ⟨_, _, _, _, rfl, rfl, rfl⟩
  obtain ⟨s, s', a, a', hbegin, hexecute, htwo⟩ := hrun
  obtain ⟨_, _, left, _, last, calls, _, _, _, _, _, hwhole, hjournal, hcalls, _⟩ :=
    execute_sends hexecute
  -- There are as many calls as tasks, so that none is left behind.
  have hlength : last.sent.length = calls.length := hcalls.length_eq
  have hall : last.sent.length + left.length = 2 := by
    rw [← List.length_append, hwhole.length_eq]
    rfl
  rw [hjournal, List.length_append] at htwo
  obtain rfl : left = [] := List.length_eq_zero_iff.mp (by omega)
  rw [List.append_nil] at hwhole
  exact ⟨s, s', a, a', hbegin, hexecute, last.sent, calls, hwhole, hjournal, hcalls⟩

/-- Three tasks. The third one consumes what the first and the second produce, and the
second one consumes what the first produces. -/
def orphan : List Task :=
  [⟨1, 1, 0, [⟨100, 0, 0, none, some 9, []⟩, ⟨101, 0, 0, none, some 10, []⟩]⟩,
    ⟨2, 1, 0, [⟨102, 0, 0, some 9, some 8, []⟩]⟩,
    ⟨3, 1, 0, [⟨103, 0, 0, some 9, none, []⟩, ⟨104, 0, 0, some 8, none, []⟩]⟩]

/-- The second task takes the result that the third one waits for, too. Nobody asks an
executor to run the third one, and the batch returns its results. -/
theorem orphan_left_behind :
    ∃ (s s' : Site Rat) (a a' : Admitted Rat),
      soloSite.begin "transfer" [] 1 = .ok (s, .ok a) ∧ s.engine.AnswersEach
        ∧ (orphan.map Task.id).Nodup
        ∧ s.execute a orphan = .ok (s', a', .ok [namingTable [100, 101]])
        ∧ ∃ task ∈ orphan, ∀ call ∈ s'.journal, ¬ task.IsCall s.nextToken call := by
  have hrun : ∃ (s s' : Site Rat) (a a' : Admitted Rat) (first second : Batch),
      soloSite.begin "transfer" [] 1 = .ok (s, .ok a) ∧ s.engine = soloSite.engine
        ∧ s.execute a orphan = .ok (s', a', .ok [namingTable [100, 101]])
        ∧ s'.journal = [.execute 0 first, .execute 0 second]
        ∧ first.fragments = [100, 101] ∧ second.fragments = [102] :=
    ⟨_, _, _, _, _, _, rfl, rfl, rfl, rfl, rfl, rfl⟩
  obtain ⟨s, s', a, a', first, second, hbegin, hengine, hexecute, hjournal, hfirst, hsecond⟩ := hrun
  have hanswers : s.engine.AnswersEach := hengine ▸ fun history p b answer h =>
    .of_eq (soloSite_answersInOrder history p b answer h)
  refine ⟨s, s', a, a', hbegin, hanswers, by decide, hexecute, _, List.mem_of_getElem? (i := 2) rfl, ?_⟩
  -- The fragments of the third task are in none of the two calls.
  rintro call hcall ⟨inputs, last, rfl⟩
  rw [hjournal, List.mem_cons, List.mem_singleton] at hcall
  rcases hcall with hcall | hcall
  · obtain ⟨_, rfl⟩ := EngineCall.execute.inj hcall
    exact absurd (show [103, 104] = [100, 101] from hfirst) (by decide)
  · obtain ⟨_, rfl⟩ := EngineCall.execute.inj hcall
    exact absurd (show [103, 104] = [102] from hsecond) (by decide)

end Site

end TxnPath
