import TxnPath.Proofs.Outcome
import TxnPath.Proofs.Txn.Balance
import TxnPath.Proofs.Txn.Steps
import TxnPath.Site.Run

/-!
# `TxnPath.Proofs.Site.Opening`: a batch before its first task is sent

A batch begins its round at every partition that takes part, registers its tasks and
starts the round there. `openRound_ok` says what it leaves behind, whatever the
transaction did before (`Opened`): the books hold what the tasks of this batch owe and
nothing else, and the transaction has the undo token of the batch.

The partitions are passed in ascending order, with the base partition somewhere among
them. What happens to the books there stays as it is at the partitions behind it
(`initEach_books`, `startEach_books`).
-/

set_option autoImplicit false

namespace TxnPath.Site

open Transaction

variable {t t' : Transaction} {ps : List Nat} {token : Nat}

/-! ### Beginning the round -/

/-- Beginning the round changes the undo token and nothing else that was done before. -/
theorem initEach_same (h : atEach (fun t p => t.initRound p token) t ps = .ok t') :
    t'.admission = t.admission ∧ t'.touched = t.touched ∧ SameErrors t t' := by
  induction ps generalizing t with
  | nil => cases h; exact ⟨rfl, rfl, .refl _⟩
  | cons p rest ih =>
    obtain ⟨m, hm, hrest⟩ := Outcome.foldlM_cons_ok h
    obtain ⟨hadmission, htouched, herrors⟩ := ih hrest
    have hfirst := sameErrors_initRound hm
    obtain ⟨_, _, _, _, ⟨_, rfl⟩ | ⟨_, rfl⟩⟩ := initRound_ok hm
    · exact ⟨hadmission, htouched, hfirst.trans herrors⟩
    · exact ⟨hadmission, htouched, hfirst.trans herrors⟩

/-- Once some partition has the undo token of the batch, the transaction keeps it. -/
theorem initEach_undoToken (h : atEach (fun t p => t.initRound p token) t ps = .ok t')
    (hps : ps ≠ [] ∨ t.undoToken = some token) : t'.undoToken = some token := by
  induction ps generalizing t with
  | nil => cases h; exact hps.resolve_left fun hne => hne rfl
  | cons p rest ih =>
    obtain ⟨m, hm, hrest⟩ := Outcome.foldlM_cons_ok h
    refine ih hrest (.inr ?_)
    obtain ⟨_, _, _, _, ⟨_, rfl⟩ | ⟨_, rfl⟩⟩ := initRound_ok hm <;> rfl

/-- Once the round has begun at the base partition, its books stay empty. Beginning it elsewhere
opens no books, and at the base partition it cannot begin twice. -/
theorem initEach_keeps
    (h : atEach (fun t p => t.initRound p token) t ps = .ok t')
    (hphase : t.phase t.admission.base = .ok .initialized) (hround : t.round = .empty) :
    t'.phase t'.admission.base = .ok .initialized ∧ t'.round = .empty := by
  induction ps generalizing t with
  | nil => cases h; exact ⟨hphase, hround⟩
  | cons p rest ih =>
    obtain ⟨m, hm, hrest⟩ := Outcome.foldlM_cons_ok h
    obtain ⟨phase, hp, hidle, _, ⟨hne, rfl⟩ | ⟨rfl, _⟩⟩ := initRound_ok hm
    · have hset := phase_setPhase_of_ne hp .initialized hne
      exact ih hrest (hset.trans hphase) hround
    · rw [hphase] at hp
      cases hp
      cases hidle

/-- The round begins with empty books. -/
theorem initEach_books
    (h : atEach (fun t p => t.initRound p token) t ps = .ok t')
    (hbase : t.admission.base ∈ ps) :
    t'.phase t'.admission.base = .ok .initialized ∧ t'.round = .empty := by
  induction ps generalizing t with
  | nil => cases hbase
  | cons p rest ih =>
    obtain ⟨m, hm, hrest⟩ := Outcome.foldlM_cons_ok h
    obtain ⟨phase, hp, _, _, ⟨hne, rfl⟩ | ⟨rfl, rfl⟩⟩ := initRound_ok hm
    · exact ih hrest ((List.mem_cons.mp hbase).resolve_left (Ne.symm hne))
    · have hset := phase_setPhase_self (t := t.setRound .empty) hp .initialized
      exact initEach_keeps hrest hset rfl

/-! ### Registering the tasks -/

/-- The partitions touched after tasks have been counted. -/
def countTasks (h : DenseHistogram) (tasks : List Task) : Except Fault DenseHistogram :=
  tasks.foldlM (fun h task => h.add? task.destination task.fragments.length) h

/-- The second round is the first one with tasks registered. Nothing has been taken in meanwhile,
and what the tasks owe is queued behind what was owed. -/
structure Registered (tasks : List Task) (r r' : Round) : Prop where
  awaited : r'.awaited = r.awaited ++ tasks.flatMap Task.owed
  received : r'.received = r.received
  queued : r'.queued = r.queued
  results : ∀ i d, (r'.entry i d).results = (r.entry i d).results
  waiting : ∀ task ∈ r'.waiting, task ∈ tasks ∨ task ∈ r.waiting
  balanced : (∃ c, r.Balanced c) → ∃ c, r'.Balanced c

/-- No tasks leave the round as it is. -/
theorem Registered.nil (r : Round) : Registered [] r r :=
  ⟨by simp, rfl, rfl, fun _ _ => rfl, fun _ h => .inr h, id⟩

/-- The first task is registered before the rest. What it owes comes before what they owe, and it
may wait among those that they add. -/
theorem Registered.cons {task : Task} {tasks : List Task} {r m r' : Round} {isBlocked : Bool}
    (h : r.addTask task = .ok (m, isBlocked)) (hrest : Registered tasks m r') :
    Registered (task :: tasks) r r' := by
  obtain ⟨hbooks, hwaiting, hentry⟩ := Round.addTask_ok h
  have hawaited : m.awaited = r.awaited ++ task.owed := by rw [hbooks]
  have hreceived : m.received = r.received := by rw [hbooks]
  have hqueued : m.queued = r.queued := by rw [hbooks]
  refine ⟨?_, hrest.received.trans hreceived, hrest.queued.trans hqueued, fun i d => ?_,
    fun x hx => ?_, fun ⟨c, hc⟩ => hrest.balanced ⟨_, hc.addTask h⟩⟩
  · rw [hrest.awaited, hawaited, List.flatMap_cons, List.append_assoc]
  · rw [hrest.results, hentry]
  · rcases hrest.waiting x hx with hlater | hold
    · exact .inl (List.mem_cons_of_mem _ hlater)
    · rcases hwaiting x hold with rfl | hold
      · exact .inl List.mem_cons_self
      · exact .inr hold

/-- Tasks are registered one after the other. The ones that are not blocked can be sent, in the
order in which they were given. -/
theorem addTasks_ok {tasks ready : List Task} (h : addTasks t tasks = .ok (t', ready)) :
    t'.admission = t.admission ∧ t'.undoToken = t.undoToken ∧ SameErrors t t'
      ∧ countTasks t.touched tasks = .ok t'.touched
      ∧ (∀ task ∈ ready, task ∈ tasks)
      ∧ Registered tasks t.round t'.round := by
  induction tasks generalizing t ready with
  | nil =>
    cases h
    exact ⟨rfl, rfl, .refl _, rfl, fun _ h => h, .nil _⟩
  | cons task rest ih =>
    unfold addTasks at h
    split at h
    · cases h
    · next m isBlocked hm =>
      split at h
      · cases h
      · next t'' others hothers =>
        cases h
        -- The first task is counted and registered, and is ready unless it is blocked.
        obtain ⟨_, touched, r, htouched, hr, rfl⟩ := Transaction.addTask_ok hm
        obtain ⟨hadmission, hundo, herrors, hcount, hready, hregistered⟩ := ih hothers
        refine ⟨hadmission, hundo, ⟨herrors.1, herrors.2, herrors.3⟩, ?_, fun x hx => ?_,
          hregistered.cons hr⟩
        · unfold countTasks at hcount ⊢
          rw [List.foldlM_cons, htouched]
          exact hcount
        · split at hx
          · exact List.mem_cons_of_mem _ (hready x hx)
          · rcases List.mem_cons.mp hx with rfl | hx
            · exact List.mem_cons_self
            · exact List.mem_cons_of_mem _ (hready x hx)

/-! ### Starting the round -/

/-- Starting the round at several partitions leaves the work and the errors, as it does at each. -/
theorem startEach_same (h : atEach startRound t ps = .ok t') :
    SameWork t t' ∧ SameErrors t t' :=
  Outcome.foldlM_rel (fun t t' => SameWork t t' ∧ SameErrors t t')
    (fun t => ⟨.refl t, .refl t⟩) (fun h h' => ⟨h.1.trans h'.1, h.2.trans h'.2⟩)
    same_startRound h

/-- Once the round has started at the base partition, its books stay as they are. -/
theorem startEach_keeps (h : atEach startRound t ps = .ok t')
    (hphase : t.phase t.admission.base = .ok .started) :
    t'.phase t'.admission.base = .ok .started ∧ t'.round = t.round := by
  induction ps generalizing t with
  | nil => cases h; exact ⟨hphase, rfl⟩
  | cons p rest ih =>
    obtain ⟨m, hm, hrest⟩ := Outcome.foldlM_cons_ok h
    obtain ⟨hp, ⟨hne, rfl⟩ | ⟨rfl, _⟩⟩ := startRound_ok hm
    · have hset := phase_setPhase_of_ne hp .started hne
      exact ih (t := t.setPhase p .started) hrest (hset.trans hphase)
    · rw [hphase] at hp
      cases hp

/-- The round starts at the base partition, and at no other once more. At the others only the phase
moves. -/
theorem startEach_books (h : atEach startRound t ps = .ok t')
    (hbase : t.admission.base ∈ ps) :
    t'.phase t'.admission.base = .ok .started
      ∧ t.round.start t.admission.txn t.pendingError.isSome = .ok t'.round := by
  induction ps generalizing t with
  | nil => cases hbase
  | cons p rest ih =>
    obtain ⟨m, hm, hrest⟩ := Outcome.foldlM_cons_ok h
    obtain ⟨hp, ⟨hne, rfl⟩ | ⟨rfl, r, hr, rfl⟩⟩ := startRound_ok hm
    · exact ih (t := t.setPhase p .started) hrest
        ((List.mem_cons.mp hbase).resolve_left (Ne.symm hne))
    · have hset := phase_setPhase_self hp .started
      obtain ⟨hphase, hround⟩ := startEach_keeps hrest hset
      exact ⟨hphase, hround ▸ hr⟩

/-! ### The open round -/

/-- The second transaction is the first one with the round of a batch open. It is what the
dispatching of the batch starts from. -/
structure Opened (tasks : List Task) (token : Nat) (t t' : Transaction) : Prop where
  admission : t'.admission = t.admission
  undoToken : t'.undoToken = some token
  touched : countTasks t.touched tasks = .ok t'.touched
  errors : SameErrors t t'
  started : t'.phase t'.admission.base = .ok .started
  awaited : t'.round.awaited = tasks.flatMap Task.owed
  results : ∀ i d, (t'.round.entry i d).results = []
  waiting : ∀ task ∈ t'.round.waiting, task ∈ tasks
  balanced : ∃ c, t'.round.Balanced c
  order : t'.round.order ≠ []

/-- The base partition takes part in every batch. -/
theorem base_mem_participants (base : Nat) (tasks : List Task) :
    base ∈ participants base tasks :=
  PartitionSet.mem_insert.mpr (.inl rfl)

/-- The three passes of an opening, and the books behind them: empty, then with the tasks
registered, then started. -/
theorem openRound_split {tasks ready : List Task}
    (h : openRound t tasks token = .ok (t', ready)) :
    ∃ m n : Transaction, atEach (fun t p => t.initRound p token) t
        (participants t.admission.base tasks) = .ok m
      ∧ addTasks (m.setBatchSize (Task.queries tasks).length) tasks = .ok (n, ready)
      ∧ atEach startRound n (participants t.admission.base tasks) = .ok t'
      ∧ (m.setBatchSize (Task.queries tasks).length).round
        = { Round.empty with batchSize := (Task.queries tasks).length }
      ∧ t'.phase t'.admission.base = .ok .started ∧ t'.round.order ≠ []
      ∧ ∃ latch, t'.round
        = { n.round with order := n.round.outputs, queued := [], latch := latch } := by
  obtain ⟨m, hm, h⟩ := Outcome.bind_ok h
  obtain ⟨⟨n, others⟩, hn, h⟩ := Outcome.bind_ok h
  obtain ⟨t'', ht'', h⟩ := Outcome.bind_ok h
  cases h
  have hbase := base_mem_participants t.admission.base tasks
  have hempty := (initEach_books hm hbase).2
  have hround : (m.setBatchSize (Task.queries tasks).length).round
      = { Round.empty with batchSize := (Task.queries tasks).length } := by
    rw [← hempty]
    rfl
  obtain ⟨hadmission, _, _, _, _, hregistered⟩ := addTasks_ok hn
  have hmember : n.admission.base ∈ participants t.admission.base tasks := by
    rw [hadmission]
    show m.admission.base ∈ _
    rw [(initEach_same hm).1]
    exact hbase
  -- The base partition is among those that start, and there the queued results are taken in. There
  -- are none, as the round has just begun.
  obtain ⟨hstarted, hstart⟩ := startEach_books ht'' hmember
  obtain ⟨q, hq, _, hbatch, houtputs, hfinal⟩ := Round.start_ok hstart
  have hqueue : n.round.queued = [] := hregistered.queued.trans (by rw [hround]; rfl)
  rw [hqueue] at hq
  cases hq
  refine ⟨m, n, hm, hn, ht'', hround, hstarted, fun hnil => ?_, _, hfinal⟩
  rw [hfinal] at hnil
  exact hbatch (houtputs.symm.trans (congrArg List.length hnil))

/-- Opening the round of a batch comes to what `Opened` says, whatever the transaction did before;
the tasks that are ready at once are tasks of the batch. -/
theorem openRound_ok {tasks ready : List Task}
    (h : openRound t tasks token = .ok (t', ready)) :
    Opened tasks token t t' ∧ ∀ task ∈ ready, task ∈ tasks := by
  obtain ⟨m, n, hm, hn, ht'', hround, hstarted, horder, latch, hfinal⟩ := openRound_split h
  have hbase := base_mem_participants t.admission.base tasks
  obtain ⟨hadmission, htouched, herrors⟩ := initEach_same hm
  obtain ⟨hadmission', hundo', herrors', hcount, hready, hregistered⟩ := addTasks_ok hn
  obtain ⟨hwork, herrors''⟩ := startEach_same ht''
  have hundo := initEach_undoToken hm (.inl (List.ne_nil_of_mem hbase))
  rw [hround] at hregistered
  obtain ⟨c, hc⟩ := hregistered.balanced ⟨.zero, ⟨rfl, fun _ _ => rfl, fun _ _ => rfl,
    fun _ h => absurd h List.not_mem_nil⟩⟩
  -- Three passes: begin everywhere, register, start everywhere. What is said of the books comes
  -- from the second; the third only fixes the order and arms the latch.
  refine ⟨{
    admission := hwork.admission.trans (hadmission'.trans hadmission)
    undoToken := hwork.undoToken.trans (hundo'.trans hundo)
    touched := ?_
    errors := ?_
    started := hstarted
    awaited := ?_
    results := fun i d => ?_
    waiting := fun task htask => ?_
    balanced := ⟨c, ?_⟩
    order := horder }, hready⟩
  · rw [← htouched, hwork.touched]
    exact hcount
  · have hbatchSize : SameErrors m n := ⟨herrors'.1, herrors'.2, herrors'.3⟩
    exact herrors.trans (hbatchSize.trans herrors'')
  · rw [hfinal]
    exact hregistered.awaited
  · rw [hfinal]
    exact hregistered.results i d
  · rw [hfinal] at htask
    exact (hregistered.waiting task htask).resolve_right List.not_mem_nil
  · rw [hfinal]
    exact ⟨hc.counters, hc.registered, hc.accounted, hc.owed⟩

end TxnPath.Site
