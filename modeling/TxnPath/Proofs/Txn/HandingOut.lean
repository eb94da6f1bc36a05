import TxnPath.Proofs.Txn.Course

/-!
# `TxnPath.Proofs.Txn.HandingOut`: when a round hands out blocked tasks

A task with inputs is blocked when it is added, and can go on once all its inputs are
complete at one moment. `Course.released` lists the tasks that have been handed out or
would be handed out next.

Whatever is done in the course of a round, no task gets back among the blocked ones
(`Sound.run_blocked`), a dependency that is delivered stays so (`Sound.delivered_run`), and a
task is released only at a moment at which its inputs are ready (`Sound.freed`).

If inputs are taken for tasks that have been handed out only (`Docket.handedFirst`), the
round is `Orderly`: what is drawn on was delivered, and is empty from then on. Then

* tasks that share no inputs are released exactly when all their inputs are delivered
  (`released_iff_delivered`);
* tasks that share inputs are released, and get their inputs, only as long as no other task
  has drawn on them (`shared_inputs`). `second_reader_stopped` is a task that comes too late.
-/

set_option autoImplicit false

namespace TxnPath

open Transaction

namespace Docket

/-- Inputs are taken for tasks that have been handed out. A task without inputs is not blocked,
and takes nothing. -/
def handedFirst (s : Docket) (op : Operation) : Prop :=
  ∀ task, op = .takeInputs task → task.hasInputs = true → task ∈ s.handed

/-- No two tasks consume one dependency of one statement. -/
def Unshared (s : Docket) : Prop :=
  ∀ a ∈ s.tasks, ∀ b ∈ s.tasks, ∀ i d, a.Consumes i d → b.Consumes i d → a = b

/-- The tables that the record of a dependency of a statement has gained, those of the base
partition first. -/
def tables (s : Docket) (base i : Nat) (d : DependencyId) : List ResultTable :=
  ((s.stored i d).filter (fun x => x.1 == base)
    ++ (s.stored i d).filter (fun x => x.1 != base)).map Prod.snd

end Docket

namespace Course

variable {rule : Docket → Operation → Prop} {start k m : Course} {task : Task} {i : Nat}
  {d : DependencyId}

/-- The tasks that have been handed out, and those that can go on. -/
def released (k : Course) : List Task := k.docket.handed ++ k.txn.takeUnblocked.2

/-- Tasks are released by what is handed out, and by what can go on. -/
theorem released_of_same {t t' : Transaction} {s s' : Docket} (hhanded : s'.handed = s.handed)
    (hunblocked : t'.round.unblocked = t.round.unblocked)
    (htask : task ∈ (Course.mk t' s').released) : task ∈ (Course.mk t s).released := by
  show task ∈ s.handed ++ t.round.unblocked
  rw [← hhanded, ← hunblocked]
  exact htask

namespace Sound

/-! ### Released tasks and blocked tasks -/

/-- The tasks with inputs are those released and those blocked. -/
theorem released_append_blocked (h : k.Sound) :
    (k.released ++ k.txn.round.blocked).Perm (k.docket.tasks.filter Task.hasInputs) := by
  show ((k.docket.handed ++ k.txn.round.unblocked) ++ k.txn.round.blocked).Perm _
  rw [List.append_assoc]
  exact (List.perm_append_comm.append_left _).trans h.tasks

/-- A task with inputs that was added is released or still blocked. There is no third place for it.
-/
theorem released_or_blocked (h : k.Sound) (htask : task ∈ k.docket.tasks)
    (hinputs : task.hasInputs = true) : task ∈ k.released ∨ task ∈ k.txn.round.blocked :=
  List.mem_append.mp (h.released_append_blocked.mem_iff.mpr (List.mem_filter.mpr ⟨htask, hinputs⟩))

/-- Only tasks that were added are released, and only such as have inputs. -/
theorem mem_tasks_of_released (h : k.Sound) (hreleased : task ∈ k.released) :
    task ∈ k.docket.tasks ∧ task.hasInputs = true :=
  List.mem_filter.mp (h.released_append_blocked.mem_iff.mp (List.mem_append_left _ hreleased))

/-- No task is both: their numbers are distinct. -/
theorem not_blocked (h : k.Sound) (hreleased : task ∈ k.released) :
    task ∉ k.txn.round.blocked := by
  have hnodup : (k.released ++ k.txn.round.blocked).Nodup :=
    h.released_append_blocked.nodup_iff.mpr (List.Nodup.of_map _ h.distinct)
  exact fun hblocked => List.disjoint_of_nodup_append hnodup hreleased hblocked

/-! ### What no operation undoes -/

/-- Nothing is delivered while the round collects tasks. -/
theorem not_collecting (h : k.Sound) (hdelivered : k.docket.Delivered i d) : ¬ k.Collecting := by
  intro hcollecting
  obtain ⟨_, _, _, hstored⟩ := h.fresh hcollecting
  obtain ⟨hpos, hlength⟩ := hdelivered
  rw [hstored, List.length_nil] at hlength
  omega

/-- Results that are taken in do not undo it either: none is owed to the record any more. -/
theorem delivered_gain {s : Docket} {t t' : Transaction} {xs : List Delivery}
    (hm : Sound ⟨t', { s.gain t.round t'.round with delivered := xs }⟩)
    (hdelivered : s.Delivered i d) : (s.gain t.round t'.round).Delivered i d := by
  obtain ⟨hpos, hlength⟩ := hdelivered
  have hfull : ((s.gain t.round t'.round).stored i d).length + t'.round.pending i d
      = s.owed.countP (Awaited.isFor i d) := hm.stored_add_pending i d
  have hmore : (s.stored i d).length ≤ ((s.gain t.round t'.round).stored i d).length := by
    show _ ≤ (s.stored i d ++ _).length
    rw [List.length_append]
    exact Nat.le_add_right _ _
  refine ⟨hpos, ?_⟩
  show _ = s.owed.countP (Awaited.isFor i d)
  omega

/-- A dependency that is delivered stays so. -/
theorem delivered_step (h : k.Sound) (hstep : Step rule k m) (hdelivered : k.docket.Delivered i d) :
    m.docket.Delivered i d := by
  have hm := h.step hstep
  cases hstep.turn.1 with
  | idle => exact hdelivered
  | added hcollecting => exact absurd hcollecting (h.not_collecting hdelivered)
  | queued => exact hdelivered
  | accepted => exact delivered_gain hm hdelivered
  | started => exact delivered_gain hm hdelivered
  | handed => exact hdelivered
  | served => exact hdelivered

/-- A dependency that is delivered stays delivered, whatever is done in the round. -/
theorem delivered_run (h : k.Sound) (hrun : Run rule k m) (hdelivered : k.docket.Delivered i d) :
    m.docket.Delivered i d := by
  induction hrun with
  | refl => exact hdelivered
  | tail hbefore hstep ih => exact (h.run hbefore).delivered_step hstep ih

/-- Once the round does not collect tasks any more, no task becomes blocked. -/
theorem step_blocked (h : k.Sound) (hstep : Step rule k m) (hstarted : ¬ k.Collecting) :
    ∀ task ∈ m.txn.round.blocked, task ∈ k.txn.round.blocked := by
  intro task htask
  cases hstep.turn.1 with
  | idle hbooks => exact hbooks.blocked ▸ htask
  | added hcollecting => exact absurd hcollecting hstarted
  | queued hcollecting => exact absurd hcollecting hstarted
  | accepted _ hround => exact ((Round.takesIn_of_accept hround).watched h.watched).2.2.1 _ htask
  | started hcollecting => exact absurd hcollecting hstarted
  | handed hround =>
    rw [hround] at htask
    exact htask
  | served _ hround => exact (Round.takeInputs_emptied hround).blocked ▸ htask

/-- Once the round has started, tasks leave the blocked ones and none joins them. -/
theorem run_blocked (h : k.Sound) (hrun : Run rule k m) (hstarted : ¬ k.Collecting) :
    ¬ m.Collecting ∧ ∀ task ∈ m.txn.round.blocked, task ∈ k.txn.round.blocked := by
  induction hrun with
  | refl => exact ⟨hstarted, fun _ htask => htask⟩
  | tail hbefore hstep ih =>
    obtain ⟨hrest, hblocked⟩ := ih
    exact ⟨fun hnow => hrest (hstep.turn.2.never_again hnow), fun task htask =>
      hblocked task ((h.run hbefore).step_blocked hstep hrest task htask)⟩

/-! ### How a task is released -/

/-- A task that results release is ready then. -/
theorem released_takesIn {txn : TxnId} {s s' : Docket} {t t' : Transaction} (h : Sound ⟨t, s⟩)
    (htakes : t.round.TakesIn txn t'.round) (hhanded : s'.handed = s.handed)
    (htask : task ∈ (Course.mk t' s').released) :
    task ∈ (Course.mk t s).released ∨ t'.round.inputsReady task = true := by
  have hall : task ∈ s'.handed ++ t'.round.unblocked := htask
  rw [hhanded] at hall
  rcases List.mem_append.mp hall with hold | hunblocked
  · exact .inl (List.mem_append_left _ hold)
  · exact ((htakes.watched h.watched).2.2.2 task hunblocked).imp_left (List.mem_append_right _)

/-- A task that an operation releases is ready then. Being handed out is not being released anew: it
moves a task from one list of released tasks to the other. -/
theorem step_released (h : k.Sound) (hstep : Step rule k m) (htask : task ∈ m.released) :
    task ∈ k.released ∨ m.txn.round.inputsReady task = true := by
  cases hstep.turn.1 with
  | idle hbooks => exact .inl (released_of_same rfl hbooks.unblocked htask)
  | added _ hround =>
    exact .inl (released_of_same rfl (by rw [(Round.addTask_ok hround).1]) htask)
  | queued _ hround => exact .inl (released_of_same rfl (by rw [hround]) htask)
  | accepted _ hround => exact h.released_takesIn (Round.takesIn_of_accept hround) rfl htask
  | started _ hfold hround =>
    exact h.released_takesIn (Round.takesIn_of_start hfold hround) rfl htask
  | @handed t t' s hround =>
    -- What was to be handed out has been handed out.
    have hnone : t'.round.unblocked = [] := by rw [hround]
    have hall : task ∈ (s.handed ++ t.round.unblocked) ++ t'.round.unblocked := htask
    rw [hnone, List.append_nil] at hall
    exact .inl hall
  | served _ hround =>
    exact .inl (released_of_same rfl (Round.takeInputs_emptied hround).unblocked htask)

/-- So a task that is released was ready at some moment. -/
theorem freed (h : start.Sound) (hnone : start.released = []) (hrun : Run rule start m)
    (htask : task ∈ m.released) :
    ∃ k, Run rule start k ∧ Run rule k m ∧ k.txn.round.inputsReady task = true := by
  induction hrun with
  | refl =>
    rw [hnone] at htask
    cases htask
  | @tail _ m hbefore hstep ih =>
    rcases (h.run hbefore).step_released hstep htask with hold | hready
    · obtain ⟨k, hfirst, hlast, hready⟩ := ih hold
      exact ⟨k, hfirst, hlast.tail hstep, hready⟩
    · exact ⟨m, hbefore.tail hstep, .refl, hready⟩

end Sound

/-! ### Taking inputs in order -/

/-- What holds in the course of a round in which inputs are taken for tasks that have been
handed out only. -/
structure Orderly (k : Course) : Prop where
  sound : k.Sound
  supplied : ∀ task ∈ k.released, ∀ i d, task.Consumes i d → k.docket.Delivered i d
  served : ∀ task ∈ k.docket.served, task.hasInputs = true → task ∈ k.docket.handed
  drained : ∀ i d, k.docket.Spent i d → (k.txn.round.entry i d).results = []

/-- A round in which nothing was done is in order. -/
theorem orderly_begin {t : Transaction} (h : t.round = .empty) : Orderly ⟨t, .empty⟩ where
  sound := sound_begin h
  supplied := fun task htask => by
    have hnone : task ∈ ([] : List Task) ++ t.round.unblocked := htask
    rw [h] at hnone
    cases hnone
  served := fun _ htask => absurd htask List.not_mem_nil
  drained := fun _ _ ⟨_, htask, _⟩ => absurd htask List.not_mem_nil

namespace Orderly

/-- What has been drawn on was delivered: a released task consumed it. -/
theorem delivered_of_spent (h : k.Orderly) (hspent : k.docket.Spent i d) :
    ∃ task ∈ k.docket.handed, task.Consumes i d ∧ k.docket.Delivered i d := by
  obtain ⟨task, htask, hdraws⟩ := hspent
  have hconsumes := Task.consumes_of_mem_draws hdraws
  have hhanded := h.served task htask (Task.hasInputs_iff.mpr ⟨i, d, hconsumes⟩)
  exact ⟨task, hhanded, hconsumes, h.supplied task (List.mem_append_left _ hhanded) i d hconsumes⟩

/-- No result comes to a record that has been drawn on. It had all its results when it was drawn on,
and gets no more than there are producers. -/
theorem drained_gain {txn : TxnId} {s : Docket} {t t' : Transaction} {xs : List Delivery}
    (h : Orderly ⟨t, s⟩)
    (hm : Sound ⟨t', { s.gain t.round t'.round with delivered := xs }⟩)
    (htakes : t.round.TakesIn txn t'.round) (hspent : s.Spent i d) :
    (t'.round.entry i d).results = [] := by
  obtain ⟨log, hfiles⟩ := htakes.files
  obtain ⟨_, _, _, hdelivered⟩ := h.delivered_of_spent hspent
  have hafter : ((s.gain t.round t'.round).stored i d).length = s.owed.countP (Awaited.isFor i d) :=
    (hm.delivered_gain hdelivered).2
  have hbefore : (s.stored i d).length = s.owed.countP (Awaited.isFor i d) := hdelivered.2
  rw [Docket.stored_gain hfiles, List.length_append] at hafter
  have hnone : (log.filter (Filing.isFor i d)).map Filing.row = [] :=
    List.length_eq_zero_iff.mp (by omega)
  rw [hfiles.results, hnone, List.append_nil]
  exact h.drained i d hspent

/-- Whatever is due keeps the round orderly. What makes it so is the rule that a task is served only
when it was handed out: its inputs were all delivered by then, so that nothing more comes to the
records it empties. -/
theorem step (h : k.Orderly) (hstep : Step Docket.handedFirst k m) : m.Orderly := by
  have hm := h.sound.step hstep
  refine ⟨hm, fun task htask i d hconsumes => ?_, ?_, ?_⟩
  · -- A task that was released before keeps its inputs, and one that is released now is ready.
    rcases h.sound.step_released hstep htask with hold | hready
    · exact h.sound.delivered_step hstep (h.supplied task hold i d hconsumes)
    · exact (hm.isComplete_iff.mp (Round.inputsReady_iff.mp hready i d hconsumes)).1
  · cases hstep.turn.1 with
    | idle => exact h.served
    | added => exact h.served
    | queued => exact h.served
    | accepted => exact h.served
    | started => exact h.served
    | handed => exact fun task htask hinputs => List.mem_append_left _ (h.served task htask hinputs)
    | served hdue =>
      intro task htask hinputs
      rcases List.mem_append.mp htask with hold | hnew
      · exact h.served task hold hinputs
      · obtain rfl := List.mem_singleton.mp hnew
        exact hdue task rfl hinputs
  · intro i d
    cases hstep.turn.1 with
    | idle hbooks =>
      rw [Round.entry_congr hbooks.records]
      exact h.drained i d
    | added _ hround =>
      rw [(Round.addTask_ok hround).2.2]
      exact h.drained i d
    | queued _ hround =>
      rw [hround]
      exact h.drained i d
    -- Results come, but none of them to a record that was drawn on: it had all its results.
    | accepted _ hround => exact h.drained_gain hm (Round.takesIn_of_accept hround)
    | started _ hfold hround => exact h.drained_gain hm (Round.takesIn_of_start hfold hround)
    | handed hround =>
      rw [hround]
      exact h.drained i d
    | served _ hround =>
      rintro ⟨task, htask, hdraws⟩
      rw [(Round.taskInputs_draws hround).2]
      split
      · rfl
      · next hnot =>
        rcases List.mem_append.mp htask with hold | hnew
        · exact h.drained i d ⟨task, hold, hdraws⟩
        · obtain rfl := List.mem_singleton.mp hnew
          exact absurd hdraws hnot

/-- A run in which only tasks that were handed out take inputs stays in order. -/
theorem run (h : k.Orderly) (hrun : Run Docket.handedFirst k m) : m.Orderly := by
  induction hrun with
  | refl => exact h
  | tail _ hstep ih => exact ih.step hstep

end Orderly

/-! ### Which tasks are released, and which get their inputs -/

/-- A task stays blocked, although all its inputs are delivered, if another task has drawn on
one of them. -/
theorem Sound.exists_spent_of_blocked (h : k.Sound) (hblocked : task ∈ k.txn.round.blocked)
    (hdelivered : ∀ i d, task.Consumes i d → k.docket.Delivered i d) :
    ∃ i d, task.Consumes i d ∧ k.docket.Spent i d := by
  obtain ⟨i, d, hconsumes, hincomplete⟩ :=
    Round.exists_incomplete (h.watched.unready task hblocked)
  refine ⟨i, d, hconsumes, ?_⟩
  by_contra hunspent
  rw [h.isComplete_iff.mpr ⟨hdelivered i d hconsumes, h.unspent i d hunspent⟩] at hincomplete
  cases hincomplete

/-- Once nothing is awaited, every dependency that is produced is delivered. -/
theorem Sound.delivered_of_none_awaited (h : k.Sound) (hnone : k.txn.round.awaited = []) :
    k.docket.Delivered i d ↔ 0 < k.docket.owed.countP (Awaited.isFor i d) := by
  have hall := h.stored_add_pending i d
  rw [Round.pending, hnone, List.countP_nil, Nat.add_zero] at hall
  exact ⟨And.left, fun hpos => ⟨hpos, hall⟩⟩

/-- A dependency that is delivered has a result of every fragment that produces it. -/
theorem Sound.stored_perm (h : k.Sound) (hdelivered : k.docket.Delivered i d) :
    ((k.docket.stored i d).map Prod.fst).Perm
      ((k.docket.owed.filter (Awaited.isFor i d)).map Awaited.partition) := by
  have hall := h.stored_add_pending i d
  have hpending : k.txn.round.pending i d = 0 :=
    Nat.add_left_cancel (hall.trans hdelivered.2.symm)
  have hnone : k.txn.round.awaited.filter (Awaited.isFor i d) = [] := by
    rw [← List.length_eq_zero_iff, ← List.countP_eq_length_filter]
    exact hpending
  have hfiled := h.filed i d
  rw [hnone, List.map_nil, List.append_nil, h.producers] at hfiled
  exact hfiled

/-- A released task gets its inputs if and only if no other task has drawn on them. That all of them
were delivered is known of a released task; so a record lacks results only where they were taken. -/
theorem Orderly.takeInputs_ok_iff (h : k.Orderly) (hreleased : task ∈ k.released) :
    (∃ out, k.txn.takeInputs task = .ok out)
      ↔ ∀ i d, (i, d) ∈ task.draws → ¬ k.docket.Spent i d := by
  have hround : (∃ out, k.txn.takeInputs task = .ok out)
      ↔ ∀ e ∈ task.draws, k.txn.round.Filled e.1 e.2 := by
    rw [← Round.taskInputs_ok_iff]
    constructor
    · rintro ⟨out, hout⟩
      obtain ⟨out', hout', _⟩ := Outcome.map_ok hout
      exact ⟨out', hout'⟩
    · rintro ⟨out, hout⟩
      exact ⟨_, congrArg (Except.map _) hout⟩
  rw [hround]
  constructor
  -- A record that was drawn on has producers and holds nothing, so that it is not filled.
  · intro hfilled i d hdraws hspent
    have hlengths : (k.txn.round.entry i d).producers.length
        = (k.txn.round.entry i d).results.length := (hfilled (i, d) hdraws).lengths
    obtain ⟨_, _, _, hpos, _⟩ := h.delivered_of_spent hspent
    rw [h.sound.producers, List.length_map, ← List.countP_eq_length_filter,
      h.drained i d hspent, List.length_nil] at hlengths
    omega
  · rintro hunspent ⟨i, d⟩ hdraws
    -- The task was released, so all that it consumes was delivered; where nobody has drawn on it,
    -- all of it is still there.
    have hdelivered := h.supplied task hreleased i d (Task.consumes_of_mem_draws hdraws)
    exact Round.filled_of_isComplete
      (h.sound.isComplete_iff.mpr ⟨hdelivered, h.sound.unspent i d (hunspent i d hdraws)⟩)

/-- What a released task gets is what the records that it draws on have gained. -/
theorem Orderly.takeInputs_eq {t' : Transaction} {inputs : List (DependencyId × List ResultTable)}
    (h : k.Orderly) (hreleased : task ∈ k.released)
    (hok : k.txn.takeInputs task = .ok (t', inputs)) :
    inputs = task.draws.map
      fun e => (e.2, k.docket.tables k.txn.admission.base e.1 e.2) := by
  have hunspent := (h.takeInputs_ok_iff hreleased).mp ⟨_, hok⟩
  obtain ⟨r, hr, _⟩ := takeInputs_ok hok
  rw [(Round.taskInputs_draws hr).1]
  refine List.map_congr_left fun e he => ?_
  rw [DependencyRecord.orderedResults_eq, h.sound.unspent e.1 e.2 (hunspent e.1 e.2 he)]
  rfl

/-- In the course of a round in which no two tasks share an input, and inputs are taken for
tasks that have been handed out only, at every moment:

- the tasks with inputs, which have distinct numbers, are those handed out, those to be handed
  out next and those blocked, each once;
- a task with inputs has been handed out, or is to be handed out next, if and only if some
  fragment is registered for each of its inputs and the record of the input has gained as
  many results as there are such fragments;
- otherwise it is blocked. -/
theorem released_iff_delivered {t₀ t : Transaction} {s : Docket} (hbegun : t₀.round = .empty)
    (hrun : Run Docket.handedFirst ⟨t₀, .empty⟩ ⟨t, s⟩) (hunshared : s.Unshared) :
    (s.handed ++ t.takeUnblocked.2 ++ t.round.blocked).Perm (s.tasks.filter Task.hasInputs)
      ∧ ((s.tasks.filter Task.hasInputs).map Task.id).Nodup
      ∧ ∀ task ∈ s.tasks, task.hasInputs = true →
        (task ∈ s.handed ++ t.takeUnblocked.2
            ↔ ∀ i d, task.Consumes i d → s.Delivered i d)
          ∧ (task ∈ t.round.blocked ↔ ∃ i d, task.Consumes i d ∧ ¬ s.Delivered i d) := by
  have h : Orderly ⟨t, s⟩ := (orderly_begin hbegun).run hrun
  refine ⟨h.sound.released_append_blocked, h.sound.distinct, fun task htask hinputs => ?_⟩
  have hreleased : task ∈ s.handed ++ t.takeUnblocked.2
      ↔ ∀ i d, task.Consumes i d → s.Delivered i d := by
    refine ⟨h.supplied task, fun hdelivered => ?_⟩
    refine (h.sound.released_or_blocked htask hinputs).resolve_right fun hblocked => ?_
    -- The task that has drawn on one of the inputs was handed out, and it consumes it too.
    obtain ⟨i, d, hconsumes, hspent⟩ := h.sound.exists_spent_of_blocked hblocked hdelivered
    obtain ⟨other, hhanded, hother, _⟩ := h.delivered_of_spent hspent
    have hgone : other ∈ Course.released ⟨t, s⟩ := List.mem_append_left _ hhanded
    obtain rfl := hunshared other (h.sound.mem_tasks_of_released hgone).1 task htask i d hother
      hconsumes
    exact h.sound.not_blocked hgone hblocked
  refine ⟨hreleased, ?_, ?_⟩
  · intro hblocked
    by_contra hall
    push Not at hall
    exact h.sound.not_blocked (hreleased.mpr hall) hblocked
  · rintro ⟨i, d, hconsumes, hmissing⟩
    exact (h.sound.released_or_blocked htask hinputs).resolve_left
      fun hgone => hmissing (hreleased.mp hgone i d hconsumes)

/-- A task that makes one table for other tasks, and one that no task consumes. -/
def tableMaker : Task :=
  ⟨1, 1, 0, [⟨100, 0, 0, none, some 9, []⟩, ⟨101, 0, 0, none, some 10, []⟩]⟩

/-- A task that consumes the table for other tasks. -/
def tableReader (id : TaskId) : Task := ⟨id, 1, 0, [⟨100 + id, 0, 0, some 9, none, []⟩]⟩

/-- A task that reads what another makes, and nobody else reads: it is handed out once the result
has come. -/
theorem released_iff_delivered_one_reader :
    ∃ t₁ t₀ t s, Transaction.start soloAdmission 0 = .ok t₁ ∧ t₁.initRound 0 1 = .ok t₀
      ∧ Run Docket.handedFirst ⟨t₀, .empty⟩ ⟨t, s⟩ ∧ s.Unshared
      ∧ s.tasks = [tableMaker, tableReader 2] ∧ s.served = [tableReader 2]
      ∧ (s.handed ++ t.takeUnblocked.2 ++ t.round.blocked).Perm [tableReader 2]
      ∧ ∀ i d, (tableReader 2).Consumes i d → s.Delivered i d := by
  obtain ⟨t₁, t₀, t, s, hstart, hinit, hbegun, hrun, htasks, hserved, hhanded⟩ :
      ∃ t₁ t₀ t s, Transaction.start soloAdmission 0 = .ok t₁
        ∧ t₁.initRound 0 1 = .ok t₀ ∧ t₀.round = .empty
        ∧ Run Docket.handedFirst ⟨t₀, .empty⟩ ⟨t, s⟩
        ∧ s.tasks = [tableMaker, tableReader 2] ∧ s.served = [tableReader 2]
        ∧ s.handed = [tableReader 2] :=
    ⟨_, _, _, _, rfl, rfl, rfl,
      .tail (.tail (.tail (.tail (.tail (.tail (.tail .refl
        (.run (.setBatchSize 1) rfl (fun _ h => nomatch h) rfl))
        (.run (.addTask tableMaker) rfl (fun _ h => nomatch h) rfl))
        (.run (.addTask (tableReader 2)) rfl (fun _ h => nomatch h) rfl))
        (.run (.addResult ⟨0, 9, ⟨["n"], []⟩⟩) rfl (fun _ h => nomatch h) rfl))
        (.run (.startRound 0) rfl (fun _ h => nomatch h) rfl))
        (.run .takeUnblocked rfl (fun _ h => nomatch h) rfl))
        (.run (.takeInputs (tableReader 2)) rfl
          (fun _ h _ => by cases h; exact List.mem_cons_self) rfl),
      rfl, rfl, rfl⟩
  -- The first task consumes nothing, so that no two consume the same.
  have hunshared : s.Unshared := by
    unfold Docket.Unshared
    rw [htasks]
    simp [Task.Consumes, tableMaker, tableReader]
  obtain ⟨hwhole, _, hall⟩ := released_iff_delivered hbegun hrun hunshared
  refine ⟨t₁, t₀, t, s, hstart, hinit, hrun, hunshared, htasks, hserved, ?_, ?_⟩
  · rw [htasks] at hwhole
    exact hwhole
  · refine (hall (tableReader 2) (by rw [htasks]; simp) rfl).1.mp ?_
    rw [hhanded]
    exact List.mem_append_left _ List.mem_cons_self

/-- In the course of a round in which inputs are taken for tasks that have been handed out
only:

- once nothing is awaited, every dependency that some fragment produces is delivered;
- a task with inputs has been handed out, or is to be handed out next, if and only if there
  was a moment at which all its inputs were delivered and no task had drawn on any of them;
- a task that has been handed out gets its inputs if and only if no task has drawn on the
  records that it draws on. It gets the tables that they have gained, those of the base
  partition first, one for every fragment that produces the dependency. -/
theorem shared_inputs {t₀ t : Transaction} {s : Docket} (hbegun : t₀.round = .empty)
    (hrun : Run Docket.handedFirst ⟨t₀, .empty⟩ ⟨t, s⟩) :
    (t.round.awaited = [] → ∀ i d, s.Delivered i d ↔ 0 < s.owed.countP (Awaited.isFor i d))
      ∧ (∀ task ∈ s.tasks, task.hasInputs = true →
        (task ∈ s.handed ++ t.takeUnblocked.2
          ↔ ∃ k, Run Docket.handedFirst ⟨t₀, .empty⟩ k ∧ Run Docket.handedFirst k ⟨t, s⟩
            ∧ ∀ i d, task.Consumes i d → k.docket.Delivered i d ∧ ¬ k.docket.Spent i d))
      ∧ ∀ task ∈ s.handed,
        ((∃ out, t.takeInputs task = .ok out) ↔ ∀ i d, (i, d) ∈ task.draws → ¬ s.Spent i d)
          ∧ (∀ t' inputs, t.takeInputs task = .ok (t', inputs) →
            inputs = task.draws.map fun e => (e.2, s.tables t.admission.base e.1 e.2))
          ∧ ∀ i d, (i, d) ∈ task.draws → ((s.stored i d).map Prod.fst).Perm
              ((s.owed.filter (Awaited.isFor i d)).map Awaited.partition) := by
  have hstart : Orderly ⟨t₀, .empty⟩ := orderly_begin hbegun
  have h : Orderly ⟨t, s⟩ := hstart.run hrun
  refine ⟨fun hnone i d => h.sound.delivered_of_none_awaited hnone, fun task htask hinputs => ?_,
    fun task hhanded => ?_⟩
  · constructor
    · -- A task is ready when it is released.
      intro hreleased
      have hnone : Course.released ⟨t₀, .empty⟩ = [] := by
        show [] ++ t₀.round.unblocked = []
        rw [hbegun]
        rfl
      obtain ⟨k, hfirst, hlast, hready⟩ := hstart.sound.freed hnone hrun hreleased
      have hk := hstart.run hfirst
      refine ⟨k, hfirst, hlast, fun i d hconsumes => ?_⟩
      obtain ⟨hdelivered, hfull⟩ :=
        hk.sound.isComplete_iff.mp (Round.inputsReady_iff.mp hready i d hconsumes)
      -- What has been drawn on is empty, and what is delivered has gained something.
      refine ⟨hdelivered, fun hspent => ?_⟩
      obtain ⟨hpos, hlength⟩ := hdelivered
      rw [← hfull, hk.drained i d hspent, List.length_nil] at hlength
      omega
    · -- If it were blocked to the end, it would have been blocked at that moment, and unready.
      rintro ⟨k, hfirst, hlast, hmoment⟩
      have hk := hstart.run hfirst
      refine (h.sound.released_or_blocked htask hinputs).resolve_right fun hblocked => ?_
      obtain ⟨i, d, hconsumes⟩ := Task.hasInputs_iff.mp hinputs
      have hstarted := hk.sound.not_collecting (hmoment i d hconsumes).1
      have hbefore := (hk.sound.run_blocked hlast hstarted).2 task hblocked
      obtain ⟨j, c, hother, hspent⟩ := hk.sound.exists_spent_of_blocked hbefore
        fun i d hconsumes => (hmoment i d hconsumes).1
      exact (hmoment j c hother).2 hspent
  · have hreleased : task ∈ Course.released ⟨t, s⟩ := List.mem_append_left _ hhanded
    refine ⟨h.takeInputs_ok_iff hreleased, fun t' inputs hok => h.takeInputs_eq hreleased hok,
      fun i d hdraws => h.sound.stored_perm ?_⟩
    exact h.supplied task hreleased i d (Task.consumes_of_mem_draws hdraws)

/-- Two tasks that consume one table: as long as neither has taken it, either can. -/
theorem shared_inputs_two_readers :
    ∃ t₁ t₀ t s, Transaction.start soloAdmission 0 = .ok t₁ ∧ t₁.initRound 0 1 = .ok t₀
      ∧ Run Docket.handedFirst ⟨t₀, .empty⟩ ⟨t, s⟩
      ∧ s.handed = [tableReader 2, tableReader 3] ∧ s.tables 0 0 9 = [⟨["n"], []⟩]
      ∧ (∃ out, t.takeInputs (tableReader 2) = .ok out)
      ∧ ∃ out, t.takeInputs (tableReader 3) = .ok out := by
  obtain ⟨t₁, t₀, t, s, hstart, hinit, hbegun, hrun, hhanded, htables, hserved⟩ :
      ∃ t₁ t₀ t s, Transaction.start soloAdmission 0 = .ok t₁
        ∧ t₁.initRound 0 1 = .ok t₀ ∧ t₀.round = .empty
        ∧ Run Docket.handedFirst ⟨t₀, .empty⟩ ⟨t, s⟩
        ∧ s.handed = [tableReader 2, tableReader 3] ∧ s.tables 0 0 9 = [⟨["n"], []⟩]
        ∧ s.served = [] :=
    ⟨_, _, _, _, rfl, rfl, rfl,
      .tail (.tail (.tail (.tail (.tail (.tail (.tail .refl
        (.run (.setBatchSize 1) rfl (fun _ h => nomatch h) rfl))
        (.run (.addTask tableMaker) rfl (fun _ h => nomatch h) rfl))
        (.run (.addTask (tableReader 2)) rfl (fun _ h => nomatch h) rfl))
        (.run (.addTask (tableReader 3)) rfl (fun _ h => nomatch h) rfl))
        (.run (.startRound 0) rfl (fun _ h => nomatch h) rfl))
        (.run (.addResult ⟨0, 9, ⟨["n"], []⟩⟩) rfl (fun _ h => nomatch h) rfl))
        (.run .takeUnblocked rfl (fun _ h => nomatch h) rfl),
      rfl, rfl, rfl⟩
  obtain ⟨_, _, hinputs⟩ := shared_inputs hbegun hrun
  -- Nobody has taken inputs yet.
  have hunspent : ∀ i d, ¬ s.Spent i d := by
    rintro i d ⟨task, htask, _⟩
    rw [hserved] at htask
    cases htask
  refine ⟨t₁, t₀, t, s, hstart, hinit, hrun, hhanded, htables, ?_, ?_⟩
  · exact (hinputs (tableReader 2) (by rw [hhanded]; simp)).1.mpr fun i d _ => hunspent i d
  · exact (hinputs (tableReader 3) (by rw [hhanded]; simp)).1.mpr fun i d _ => hunspent i d

/-- Two tasks that consume one table, once all results have come: both are handed out, the first
of them takes the table, and the second one is stopped. -/
theorem second_reader_stopped :
    ∃ t₁ t₀ t s, Transaction.start soloAdmission 0 = .ok t₁ ∧ t₁.initRound 0 1 = .ok t₀
      ∧ Run Docket.handedFirst ⟨t₀, .empty⟩ ⟨t, s⟩ ∧ t.round.awaited = []
      ∧ s.handed = [tableReader 2, tableReader 3] ∧ s.served = [tableReader 2]
      ∧ t.takeInputs (tableReader 3) = .error (t.fault (.incompleteInput 9 0)) :=
  ⟨_, _, _, _, rfl, rfl,
    .tail (.tail (.tail (.tail (.tail (.tail (.tail (.tail (.tail .refl
      (.run (.setBatchSize 1) rfl (fun _ h => nomatch h) rfl))
      (.run (.addTask tableMaker) rfl (fun _ h => nomatch h) rfl))
      (.run (.addTask (tableReader 2)) rfl (fun _ h => nomatch h) rfl))
      (.run (.addTask (tableReader 3)) rfl (fun _ h => nomatch h) rfl))
      (.run (.startRound 0) rfl (fun _ h => nomatch h) rfl))
      (.run (.addResult ⟨0, 9, ⟨["n"], []⟩⟩) rfl (fun _ h => nomatch h) rfl))
      (.run (.addResult ⟨0, 10, ⟨["m"], []⟩⟩) rfl (fun _ h => nomatch h) rfl))
      (.run .takeUnblocked rfl (fun _ h => nomatch h) rfl))
      (.run (.takeInputs (tableReader 2)) rfl
        (fun _ h _ => by cases h; exact List.mem_cons_self) rfl),
    rfl, rfl, rfl, rfl⟩

end Course

end TxnPath
