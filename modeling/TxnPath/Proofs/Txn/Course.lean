import Mathlib.Logic.Relation
import TxnPath.Proofs.Txn.Conservation
import TxnPath.Proofs.Txn.Inputs
import TxnPath.Proofs.Txn.Matching

/-!
# `TxnPath.Proofs.Txn.Course`: the course of a round

A round begins with empty books and goes on until the next round begins at the base
partition, or the transaction ends. In between come operations of any kind, in any order.
A `Docket` notes what happens meanwhile: which tasks are added, which results come and
what the records gain by them, which tasks are handed out, and whose inputs are taken. It
reads the gains off the records themselves (`Docket.gain`), not off the results that come.

`Course.Run` is a number of operations in the course of a round. A rule says which of them
are due: statements about rounds in which inputs are taken in some orderly way restrict
the run by it, and all others leave it open.

`Step.turn` says once what an operation can do to the books. `Course.Sound` is kept by
every operation, whatever the rule (`Sound.run`):

* the tasks with inputs that were added are those handed out, those that can go on and
  those blocked, each once (`tasks`, `distinct`);
* what a record has gained, with what is still owed to it, is what its producers owe
  (`filed`);
* it holds the end of what it has gained (`holds`), and all of it as long as no task has
  drawn on it (`unspent`).
-/

set_option autoImplicit false

namespace TxnPath

open Transaction

/-- What has happened in a round up to some moment. -/
structure Docket where
  /-- The tasks added, in order. -/
  tasks : List Task
  /-- The results that came and were not dropped, in order. -/
  delivered : List Delivery
  /-- What the record of a dependency of a statement has gained, in order. -/
  stored : Nat → DependencyId → List (Nat × ResultTable)
  /-- The tasks handed out after they had been blocked, in order. -/
  handed : List Task
  /-- The tasks whose inputs were taken, in order. -/
  served : List Task

namespace Docket

/-- Nothing has happened yet. -/
def empty : Docket := ⟨[], [], fun _ _ => [], [], []⟩

/-- What the tasks added owe, in the order in which it was registered. -/
def owed (s : Docket) : List Awaited := s.tasks.flatMap Task.owed

/-- Some fragment that produces the dependency of the statement is registered, and its record
has gained as many results as there are such fragments. -/
def Delivered (s : Docket) (i : Nat) (d : DependencyId) : Prop :=
  0 < s.owed.countP (Awaited.isFor i d)
    ∧ (s.stored i d).length = s.owed.countP (Awaited.isFor i d)

/-- A task whose inputs were taken has drawn on the record of the dependency of the statement. -/
def Spent (s : Docket) (i : Nat) (d : DependencyId) : Prop :=
  ∃ task ∈ s.served, (i, d) ∈ task.draws

/-- The docket with what the records gain while the books `r` become `r'`. -/
def gain (s : Docket) (r r' : Round) : Docket :=
  { s with stored := fun i d =>
      s.stored i d ++ (r'.entry i d).results.drop (r.entry i d).results.length }

end Docket

namespace Transaction.Operation

/-- The operation neither begins a round at the base partition nor ends the transaction. -/
def staysInRound (base : Nat) : Operation → Bool
  | .initRound p _ => p != base
  | .finish => false
  | _ => true

/-- The docket after an operation that leads from `t` to `t'`. -/
def note (t t' : Transaction) (s : Docket) : Operation → Docket
  | .addTask task => { s with tasks := s.tasks ++ [task] }
  | .addResult x =>
    if t.isFinished || t.hasFailed then s
    else { s.gain t.round t'.round with delivered := s.delivered ++ [x] }
  | .startRound _ => s.gain t.round t'.round
  | .takeUnblocked => { s with handed := s.handed ++ t.takeUnblocked.2 }
  | .takeInputs task => { s with served := s.served ++ [task] }
  | _ => s

end Transaction.Operation

/-- A transaction in the course of a round, and what has happened in the round. -/
structure Course where
  /-- The transaction. -/
  txn : Transaction
  /-- What has happened. -/
  docket : Docket

namespace Course

/-- One operation in the course of a round, due by a rule. -/
inductive Step (rule : Docket → Operation → Prop) : Course → Course → Prop
  | run {t t' : Transaction} {s : Docket} (op : Operation)
      (hstays : op.staysInRound t.admission.base = true) (hdue : rule s op)
      (hrun : op.run t = .ok t') : Step rule ⟨t, s⟩ ⟨t', op.note t t' s⟩

/-- Any number of operations in the course of a round. -/
abbrev Run (rule : Docket → Operation → Prop) : Course → Course → Prop :=
  Relation.ReflTransGen (Step rule)

/-- The round collects tasks: it has begun at the base partition, and has not started. -/
def Collecting (k : Course) : Prop :=
  k.txn.phase k.txn.admission.base = .ok .initialized

/-- Once the round has started no more tasks are collected. -/
theorem not_collecting_of_started {t : Transaction} {s : Docket}
    (h : t.phase t.admission.base = .ok .started) : ¬ Collecting ⟨t, s⟩ :=
  fun hcollecting => nomatch phase_unique h hcollecting

end Course

/-! ### What an operation does to the books -/

namespace Round

/-- The second round has the records, the queue of fragments and the tasks of the first. Counters
and latch may have changed, and so may the results that are queued. -/
structure SameBooks (r r' : Round) : Prop where
  records : r'.records = r.records
  awaited : r'.awaited = r.awaited
  blocked : r'.blocked = r.blocked
  unblocked : r'.unblocked = r.unblocked

/-- Books that are not touched are the same. -/
theorem SameBooks.refl (r : Round) : SameBooks r r := ⟨rfl, rfl, rfl, rfl⟩

/-- Two steps that leave the books leave them together. -/
theorem SameBooks.trans {r r' r'' : Round} (h : SameBooks r r') (h' : SameBooks r' r'') :
    SameBooks r r'' :=
  ⟨h'.1.trans h.1, h'.2.trans h.2, h'.3.trans h.3, h'.4.trans h.4⟩

variable {r r' m : Round} {txn : TxnId}

/-- The second round has the books of the first one after results were taken in. -/
def TakesIn (txn : TxnId) (r r' : Round) : Prop :=
  ∃ (xs : List Delivery) (m m' : Round), r.SameBooks m
    ∧ xs.foldlM (accept txn) m = .ok m' ∧ m'.SameBooks r'

/-- Taking in one result is taking in results. -/
theorem takesIn_of_accept {x : Delivery} (h : r.accept txn x = .ok r') : TakesIn txn r r' :=
  ⟨[x], r, r', .refl _, (Outcome.bind_of_ok h).trans rfl, .refl _⟩

/-- The results that came before the round started are taken in when it does. -/
theorem takesIn_of_start {latch : Option Latch}
    (hfold : r.queued.foldlM (accept txn) { r with order := r.outputs, queued := [] } = .ok m)
    (hround : r' = { m with latch := latch }) : TakesIn txn r r' :=
  ⟨r.queued, { r with order := r.outputs, queued := [] }, m, ⟨rfl, rfl, rfl, rfl⟩, hfold, by
    rw [hround]
    exact ⟨rfl, rfl, rfl, rfl⟩⟩

namespace TakesIn

/-- Results that are taken in are filed one after the other: they leave the queue and arrive in
records. -/
theorem files (h : TakesIn txn r r') : ∃ log, r.Files log r' := by
  obtain ⟨xs, m, m', hbefore, hfold, hafter⟩ := h
  obtain ⟨log, _, hfiles⟩ := foldlM_accept_files hfold
  exact ⟨log, hfiles.congr hbefore.records hbefore.awaited hafter.records hafter.awaited⟩

/-- Taking in results registers nobody. -/
theorem producers (h : TakesIn txn r r') (i : Nat) (d : DependencyId) :
    (r'.entry i d).producers = (r.entry i d).producers := by
  obtain ⟨xs, m, m', hbefore, hfold, hafter⟩ := h
  rw [entry_congr hafter.records, (foldlM_accept_settles hfold).producers,
    entry_congr hbefore.records]

/-- Results let tasks go on, and leave none behind that they make ready. A task that can go on now
could do so before, or has its inputs since. -/
theorem watched (h : TakesIn txn r r') (hwatched : r.Watched) :
    r'.Watched ∧ r'.waiting.Perm r.waiting ∧ (∀ t ∈ r'.blocked, t ∈ r.blocked)
      ∧ ∀ t ∈ r'.unblocked, t ∈ r.unblocked ∨ r'.inputsReady t = true := by
  obtain ⟨xs, m, m', hbefore, hfold, hafter⟩ := h
  obtain ⟨hwatched', hwaiting, hblocked, hunblocked⟩ :=
    (hwatched.congr hbefore.records hbefore.awaited hbefore.blocked).foldlM_accept hfold
  refine ⟨hwatched'.congr hafter.records hafter.awaited hafter.blocked, ?_, fun t ht => ?_,
    fun t ht => ?_⟩
  · show (r'.blocked ++ r'.unblocked).Perm (r.blocked ++ r.unblocked)
    rw [hafter.blocked, hafter.unblocked, ← hbefore.blocked, ← hbefore.unblocked]
    exact hwaiting
  · rw [← hbefore.blocked]
    exact hblocked t (hafter.blocked ▸ ht)
  · rw [← hbefore.unblocked, inputsReady_congr hafter.records]
    exact hunblocked t (hafter.unblocked ▸ ht)

end TakesIn

end Round

namespace Transaction

/-- The second transaction has the books, the queued results and the phases of the first. -/
structure Rests (t t' : Transaction) : Prop where
  books : t.round.SameBooks t'.round
  queued : t'.round.queued = t.round.queued
  phases : t'.phases = t.phases
  admission : t'.admission = t.admission

/-- Two steps at rest are at rest together. -/
theorem Rests.trans {t t' t'' : Transaction} (h : Rests t t') (h' : Rests t' t'') : Rests t t'' :=
  ⟨h.1.trans h'.1, h'.2.trans h.2, h'.3.trans h.3, h'.4.trans h.4⟩

/-- An error that is noted leaves the round at rest, apart from its latch. -/
theorem rests_fail (t : Transaction) (e : TxnError) : Rests t (t.fail e) := by
  unfold fail
  split
  · exact ⟨.refl _, rfl, rfl, rfl⟩
  · exact ⟨⟨rfl, rfl, rfl, rfl⟩, rfl, rfl, rfl⟩

/-- So does reporting one. -/
theorem rests_takeError (t : Transaction) : Rests t t.takeError.1 :=
  ⟨.refl _, rfl, rfl, rfl⟩

/-- And so does waiting, which notes and reports errors. -/
theorem rests_wait (t : Transaction) (timeout : Option Nat) : Rests t (t.wait timeout).1 := by
  rcases wait_eq t timeout with hsame | ⟨e, htimeout, _⟩
  · rw [hsame]
    exact rests_takeError t
  · rw [htimeout]
    exact ((rests_takeError t).trans (rests_fail _ e)).trans (rests_takeError _)

/-- Acknowledging a prepare concerns the callback only. -/
theorem rests_acknowledgePrepare {t t' : Transaction} {partitions : PartitionSet}
    (h : t.acknowledgePrepare partitions = .ok t') : Rests t t' := by
  unfold acknowledgePrepare at h
  split at h
  · cases h
    exact ⟨.refl _, rfl, rfl, rfl⟩
  · obtain ⟨_, _, rfl⟩ := Outcome.map_ok h
    exact ⟨.refl _, rfl, rfl, rfl⟩

end Transaction

namespace Docket

/-- Records that stay as they are have gained nothing. -/
theorem gain_of_same {s : Docket} {r r' : Round} (h : r'.records = r.records) :
    s.gain r r' = s := by
  have hstored : (s.gain r r').stored = s.stored := by
    funext i d
    show s.stored i d ++ _ = s.stored i d
    rw [Round.entry_congr h, List.drop_length, List.append_nil]
  show { s with stored := (s.gain r r').stored } = s
  rw [hstored]

/-- What a task owes is owed behind all that was owed before. -/
theorem owed_addTask (s : Docket) (task : Task) :
    owed { s with tasks := s.tasks ++ [task] } = s.owed ++ task.owed := by
  show (s.tasks ++ [task]).flatMap Task.owed = s.tasks.flatMap Task.owed ++ task.owed
  rw [List.flatMap_append, List.flatMap_singleton]

/-- What is filed in the records is what they gain. -/
theorem stored_gain {s : Docket} {r r' : Round} {log : List Filing} (h : r.Files log r') (i : Nat)
    (d : DependencyId) :
    (s.gain r r').stored i d
      = s.stored i d ++ (log.filter (Filing.isFor i d)).map Filing.row := by
  show s.stored i d ++ (r'.entry i d).results.drop _ = _
  rw [h.results, List.drop_left]

end Docket

namespace Course

variable {rule : Docket → Operation → Prop} {k m : Course} {i : Nat} {d : DependencyId}

/-- What one operation in the course of a round can do to the books. There are fewer ways than
operations, so that an invariant of courses is shown by these. -/
inductive Turn (rule : Docket → Operation → Prop) : Course → Course → Prop
  /-- It leaves them alone. -/
  | idle {t t' : Transaction} {s : Docket} (hbooks : t.round.SameBooks t'.round)
      (hqueued : t'.round.queued = t.round.queued) : Turn rule ⟨t, s⟩ ⟨t', s⟩
  /-- It adds a task. -/
  | added {t t' : Transaction} {s : Docket} {task : Task} {isBlocked : Bool}
      (hcollecting : Collecting ⟨t, s⟩)
      (hround : t.round.addTask task = .ok (t'.round, isBlocked)) :
      Turn rule ⟨t, s⟩ ⟨t', { s with tasks := s.tasks ++ [task] }⟩
  /-- It queues a result. -/
  | queued {t t' : Transaction} {s : Docket} {x : Delivery}
      (hcollecting : Collecting ⟨t, s⟩)
      (hround : t'.round = { t.round with queued := t.round.queued ++ [x] }) :
      Turn rule ⟨t, s⟩ ⟨t', { s with delivered := s.delivered ++ [x] }⟩
  /-- It takes in a result. -/
  | accepted {t t' : Transaction} {s : Docket} {x : Delivery} (hcollecting : ¬ Collecting ⟨t, s⟩)
      (hround : t.round.accept t.admission.txn x = .ok t'.round) :
      Turn rule ⟨t, s⟩
        ⟨t', { s.gain t.round t'.round with delivered := s.delivered ++ [x] }⟩
  /-- It starts the round, and takes in the queued results. -/
  | started {t t' : Transaction} {s : Docket} {m : Round} {latch : Option Latch}
      (hcollecting : Collecting ⟨t, s⟩)
      (hfold : t.round.queued.foldlM (Round.accept t.admission.txn)
        { t.round with order := t.round.outputs, queued := [] } = .ok m)
      (hround : t'.round = { m with latch := latch })
      (hstarted : t'.phase t'.admission.base = .ok .started) :
      Turn rule ⟨t, s⟩ ⟨t', s.gain t.round t'.round⟩
  /-- It hands out the tasks that can go on. -/
  | handed {t t' : Transaction} {s : Docket}
      (hround : t'.round = { t.round with unblocked := [] }) :
      Turn rule ⟨t, s⟩ ⟨t', { s with handed := s.handed ++ t.round.unblocked }⟩
  /-- It takes the inputs of a task. -/
  | served {t t' : Transaction} {s : Docket} {task : Task}
      {inputs : List (DependencyId × List ResultTable)} (hdue : rule s (.takeInputs task))
      (hround : Round.takeInputs t.admission.txn t.admission.base task.id t.round []
        task.fragments = .ok (t'.round, inputs)) :
      Turn rule ⟨t, s⟩ ⟨t', { s with served := s.served ++ [task] }⟩

/-- A round does not collect tasks again, and when it ceases to, no result is queued. -/
structure Proceeds (k m : Course) : Prop where
  never_again : m.Collecting → k.Collecting
  queue_empty : k.Collecting → m.Collecting ∨ m.txn.round.queued = []

/-- A step that leaves the phase of the base partition neither starts nor ends the round. -/
theorem proceeds_of_phase {t t' : Transaction} {s s' : Docket}
    (h : t'.phase t'.admission.base = t.phase t.admission.base) : Proceeds ⟨t, s⟩ ⟨t', s'⟩ :=
  ⟨fun hcollecting => h.symm.trans hcollecting, fun hcollecting => .inl (h.trans hcollecting)⟩

/-- A step at rest is an idle turn. -/
theorem turn_of_rests {t t' : Transaction} {s : Docket} (h : Rests t t') :
    Turn rule ⟨t, s⟩ ⟨t', s⟩ ∧ Proceeds ⟨t, s⟩ ⟨t', s⟩ := by
  refine ⟨.idle h.books h.queued, proceeds_of_phase ?_⟩
  rw [h.admission]
  exact phase_congr h.phases h.admission _

section operations

variable {t t' : Transaction} {s : Docket} {p : Nat}

/-- Opening a round at another partition than the base is an idle turn, as the books belong to the
base. -/
theorem turn_initRound {token : Nat} (hbase : p ≠ t.admission.base)
    (h : t.initRound p token = .ok t') : Turn rule ⟨t, s⟩ ⟨t', s⟩ ∧ Proceeds ⟨t, s⟩ ⟨t', s⟩ := by
  obtain ⟨phase, hphase, _, _, ⟨_, rfl⟩ | ⟨hsame, _⟩⟩ := initRound_ok h
  · exact ⟨.idle (.refl _) rfl, proceeds_of_phase (phase_setPhase_of_ne hphase .initialized hbase)⟩
  · exact absurd hsame hbase

/-- Starting the round takes in what was queued, and the records gain it. Starting it at another
partition than the base leaves the books alone. -/
theorem turn_startRound (h : t.startRound p = .ok t') :
    Turn rule ⟨t, s⟩ ⟨t', s.gain t.round t'.round⟩
      ∧ Proceeds ⟨t, s⟩ ⟨t', s.gain t.round t'.round⟩ := by
  obtain ⟨hphase, ⟨hbase, rfl⟩ | ⟨rfl, r, hr, rfl⟩⟩ := startRound_ok h
  · refine ⟨?_, proceeds_of_phase (phase_setPhase_of_ne hphase .started hbase)⟩
    show Turn rule ⟨t, s⟩ ⟨_, s.gain t.round t.round⟩
    rw [Docket.gain_of_same rfl]
    exact .idle (.refl _) rfl
  · have hset := phase_setPhase_self hphase .started
    obtain ⟨m, hm, _, _, _, hlatch⟩ := Round.start_ok hr
    refine ⟨.started hphase hm hlatch hset, fun _ => hphase, fun _ => .inr ?_⟩
    show r.queued = []
    rw [hlatch]
    exact (Round.foldlM_accept_settles hm).queued

/-- Finishing the round closes its latch, which is none of the books that a course looks at. -/
theorem turn_finishRound (h : t.finishRound p = .ok t') :
    Turn rule ⟨t, s⟩ ⟨t', s⟩ ∧ Proceeds ⟨t, s⟩ ⟨t', s⟩ := by
  obtain ⟨hphase, _, hqueued, ⟨hbase, rfl⟩ | ⟨rfl, rfl⟩⟩ := finishRound_ok h
  · exact ⟨.idle (.refl _) rfl, proceeds_of_phase (phase_setPhase_of_ne hphase .finished hbase)⟩
  · refine ⟨.idle ⟨rfl, rfl, rfl, rfl⟩ rfl, fun hcollecting => ?_, fun _ => .inr hqueued⟩
    exact nomatch phase_unique (phase_setPhase_self hphase .finished) hcollecting

/-- A result is dropped, queued or taken in, as the phase has it. -/
theorem turn_addResult {x : Delivery} (h : t.addResult x = .ok t') :
    let s' := (Operation.addResult x).note t t' s
    Turn rule ⟨t, s⟩ ⟨t', s'⟩ ∧ Proceeds ⟨t, s⟩ ⟨t', s'⟩ := by
  rcases addResult_ok h with ⟨hclosed, rfl⟩ | ⟨hopen, ⟨hphase, r, hr, rfl⟩ | ⟨hphase, r, hr, rfl⟩⟩
  · rw [Operation.note, if_pos hclosed]
    exact ⟨.idle (.refl _) rfl, proceeds_of_phase rfl⟩
  · have hqueue := Round.enqueue_ok hr
    have hrecords : (t.setRound r).round.records = t.round.records := by rw [hqueue]; rfl
    rw [Operation.note, if_neg (by simp [hopen]), Docket.gain_of_same hrecords]
    exact ⟨.queued hphase hqueue, proceeds_of_phase rfl⟩
  · have hstarted : ¬ Collecting ⟨t, s⟩ := not_collecting_of_started hphase
    rw [Operation.note, if_neg (by simp [hopen])]
    exact ⟨.accepted hstarted hr, proceeds_of_phase rfl⟩

end operations

/-- Every operation comes to one of these, and the round proceeds. Proofs about courses go by the
kinds of turns, of which there are fewer than operations: most operations are idle as far as tasks
and results are concerned. -/
theorem Step.turn (h : Step rule k m) : Turn rule k m ∧ Proceeds k m := by
  obtain ⟨op, hstays, hdue, hrun⟩ := h
  rename_i t t' s
  cases op with
  | initRound p token =>
    have hbase : p ≠ t.admission.base := by simpa [Operation.staysInRound] using hstays
    exact turn_initRound hbase hrun
  | startRound p => exact turn_startRound hrun
  | finishRound p => exact turn_finishRound hrun
  -- Tasks, results, hand-outs and inputs each have a kind of turn of their own.
  | addTask task =>
    obtain ⟨⟨t'', isBlocked⟩, hadd, rfl⟩ := Outcome.map_ok hrun
    obtain ⟨hphase, touched, r, _, hr, rfl⟩ := addTask_ok hadd
    exact ⟨.added hphase hr, proceeds_of_phase rfl⟩
  | addResult x => exact turn_addResult hrun
  | takeUnblocked =>
    cases hrun
    exact ⟨.handed rfl, proceeds_of_phase rfl⟩
  | takeInputs task =>
    obtain ⟨⟨t'', inputs⟩, htake, rfl⟩ := Outcome.map_ok hrun
    obtain ⟨r, hr, rfl⟩ := takeInputs_ok htake
    exact ⟨.served hdue hr, proceeds_of_phase rfl⟩
  -- Everything else is idle.
  | setBatchSize n =>
    cases hrun
    exact ⟨.idle ⟨rfl, rfl, rfl, rfl⟩ rfl, proceeds_of_phase rfl⟩
  | readResults =>
    obtain ⟨_, _, rfl⟩ := Outcome.map_ok hrun
    exact ⟨.idle (.refl _) rfl, proceeds_of_phase rfl⟩
  | fail e => cases hrun; exact turn_of_rests (rests_fail t e)
  | takeError => cases hrun; exact turn_of_rests (rests_takeError t)
  | wait timeout => cases hrun; exact turn_of_rests (rests_wait t timeout)
  | acknowledgePrepare partitions => exact turn_of_rests (rests_acknowledgePrepare hrun)
  | markDone p => cases hrun; exact ⟨.idle (.refl _) rfl, proceeds_of_phase rfl⟩
  | expectPrepare partitions => cases hrun; exact ⟨.idle (.refl _) rfl, proceeds_of_phase rfl⟩
  | refusePrepare => cases hrun; exact ⟨.idle (.refl _) rfl, proceeds_of_phase rfl⟩
  | setLastResults results => cases hrun; exact ⟨.idle (.refl _) rfl, proceeds_of_phase rfl⟩
  | takeLastResults => cases hrun; exact ⟨.idle (.refl _) rfl, proceeds_of_phase rfl⟩
  | finish => cases hstays

/-! ### What every operation keeps -/

/-- What holds in the course of every round. The docket says what has come in and gone out, and each
line ties a part of the books to it. -/
structure Sound (k : Course) : Prop where
  /-- No blocked task could go on, and none will be passed over. -/
  watched : k.txn.round.Watched
  /-- While tasks are collected no result has been taken in and no task handed out. -/
  fresh : k.Collecting → k.txn.round.Prepared ∧ k.txn.round.unblocked = []
    ∧ k.docket.handed = [] ∧ ∀ i d, k.docket.stored i d = []
  /-- A record lists the partitions of the fragments that were added for it, in order. -/
  producers : ∀ i d, (k.txn.round.entry i d).producers
    = (k.docket.owed.filter (Awaited.isFor i d)).map Awaited.partition
  /-- Every task with inputs waits or was handed out. -/
  tasks : (k.docket.handed ++ k.txn.round.waiting).Perm (k.docket.tasks.filter Task.hasInputs)
  /-- These tasks have numbers of their own. -/
  distinct : ((k.docket.tasks.filter Task.hasInputs).map Task.id).Nodup
  /-- Every producer of a record has had its result stored, or still owes it. -/
  filed : ∀ i d, ((k.docket.stored i d).map Prod.fst
      ++ (k.txn.round.awaited.filter (Awaited.isFor i d)).map Awaited.partition).Perm
    (k.txn.round.entry i d).producers
  /-- What a record holds is the end of what it has gained. -/
  holds : ∀ i d, (k.txn.round.entry i d).results <:+ k.docket.stored i d
  /-- It holds all of it unless a task has drawn on the record. -/
  unspent : ∀ i d, ¬ k.docket.Spent i d → (k.txn.round.entry i d).results = k.docket.stored i d

/-- A round that begins is sound. -/
theorem sound_begin {t : Transaction} (h : t.round = .empty) : Sound ⟨t, .empty⟩ := by
  have hprepared : Round.empty.Prepared :=
    ⟨List.nodup_nil, fun _ ht => absurd ht List.not_mem_nil,
      fun _ ht => absurd ht List.not_mem_nil, fun _ _ => rfl, fun _ _ => rfl, fun _ _ => rfl⟩
  exact {
    watched := h ▸ hprepared.watched
    fresh := fun _ => ⟨h ▸ hprepared, by rw [h]; rfl, rfl, fun _ _ => rfl⟩
    producers := fun i d => by rw [h]; rfl
    tasks := by rw [h]; exact .refl _
    distinct := List.nodup_nil
    filed := fun i d => by rw [h]; exact .refl _
    holds := fun i d => by rw [h]; exact List.suffix_refl _
    unspent := fun i d _ => by rw [h]; rfl }

namespace Sound

variable {t t' : Transaction} {s : Docket}

/-- What has been gained and what is owed still are what is registered. -/
theorem stored_add_pending (h : k.Sound) (i : Nat) (d : DependencyId) :
    (k.docket.stored i d).length + k.txn.round.pending i d
      = k.docket.owed.countP (Awaited.isFor i d) := by
  have hlength := (h.filed i d).length_eq
  rw [h.producers, List.length_append, List.length_map, List.length_map, List.length_map,
    ← List.countP_eq_length_filter, ← List.countP_eq_length_filter] at hlength
  exact hlength

/-- A fragment that owes a result is a producer in its entry. -/
theorem owed (h : k.Sound) :
    ∀ a ∈ k.txn.round.awaited,
      a.partition ∈ (k.txn.round.entry a.statement a.dependency).producers := by
  intro a ha
  refine (h.filed a.statement a.dependency).subset (List.mem_append_right _ ?_)
  exact List.mem_map_of_mem (List.mem_filter.mpr ⟨ha, Awaited.isFor_iff.mpr ⟨rfl, rfl⟩⟩)

/-- A record is complete if and only if its dependency is delivered and none of its results
has been taken. -/
theorem isComplete_iff (h : k.Sound) :
    (k.txn.round.entry i d).isComplete = true ↔
      k.docket.Delivered i d ∧ (k.txn.round.entry i d).results = k.docket.stored i d := by
  have hproducers : (k.txn.round.entry i d).producers.length
      = k.docket.owed.countP (Awaited.isFor i d) := by
    rw [h.producers, List.length_map, ← List.countP_eq_length_filter]
  rw [DependencyRecord.isComplete_iff, ← List.length_pos_iff, hproducers]
  constructor
  · -- What the record holds is part of what it has gained, which is at most what is registered.
    rintro ⟨hpos, hlength⟩
    have hbound := h.stored_add_pending i d
    have hfew := (h.holds i d).length_le
    have hsame := (h.holds i d).eq_of_length (by omega)
    exact ⟨⟨hpos, hsame ▸ hlength⟩, hsame⟩
  · rintro ⟨⟨hpos, hlength⟩, hsame⟩
    exact ⟨hpos, hsame ▸ hlength⟩

/-- The books stay, and the docket notes nothing that the invariant reads. This is the case of an
idle turn, and of a result that is queued. -/
theorem same (h : Sound ⟨t, s⟩) (hbooks : t.round.SameBooks t'.round)
    (hcollecting : Collecting ⟨t', s⟩ → Collecting ⟨t, s⟩) (xs : List Delivery) :
    Sound ⟨t', { s with delivered := xs }⟩ where
  -- The invariant reads records, queue and tasks, all of which are the same.
  watched := h.watched.congr hbooks.records hbooks.awaited hbooks.blocked
  fresh := fun hnow => by
    obtain ⟨hprepared, hunblocked, hhanded, hstored⟩ := h.fresh (hcollecting hnow)
    exact ⟨hprepared.congr hbooks.records hbooks.awaited hbooks.blocked,
      hbooks.unblocked.trans hunblocked, hhanded, hstored⟩
  producers := fun i d => by
    rw [Round.entry_congr hbooks.records]
    exact h.producers i d
  tasks := by
    show (s.handed ++ (t'.round.blocked ++ t'.round.unblocked)).Perm _
    rw [hbooks.blocked, hbooks.unblocked]
    exact h.tasks
  distinct := h.distinct
  filed := fun i d => by
    show (_ ++ (t'.round.awaited.filter _).map _).Perm (t'.round.entry i d).producers
    rw [Round.entry_congr hbooks.records, hbooks.awaited]
    exact h.filed i d
  holds := fun i d => by
    rw [Round.entry_congr hbooks.records]
    exact h.holds i d
  unspent := fun i d => by
    rw [Round.entry_congr hbooks.records]
    exact h.unspent i d

/-- A task is added before any result has come. It is appended to the tasks of the docket, and to
those blocked if it has inputs; what its fragments owe is appended to the queue and to the producers
of its records. -/
theorem added {task : Task} {isBlocked : Bool} (h : Sound ⟨t, s⟩)
    (hcollecting : Collecting ⟨t, s⟩) (hround : t.round.addTask task = .ok (t'.round, isBlocked)) :
    Sound ⟨t', { s with tasks := s.tasks ++ [task] }⟩ := by
  obtain ⟨hprepared, hunblocked, hhanded, hstored⟩ := h.fresh hcollecting
  have hprepared' := hprepared.addTask hround
  obtain ⟨hbooks, _, hentry⟩ := Round.addTask_ok hround
  have hawaited : t'.round.awaited = t.round.awaited ++ task.owed := by rw [hbooks]
  have hunblocked' : t'.round.unblocked = [] := by
    rw [hbooks]
    exact hunblocked
  have hproducers : ∀ i d, (t'.round.entry i d).producers = (t.round.entry i d).producers
      ++ (task.owed.filter (Awaited.isFor i d)).map Awaited.partition := by
    intro i d
    rw [hentry]
  -- Nothing has been handed out, so that the tasks with inputs are those blocked.
  have htasks : t'.round.blocked.Perm ((s.tasks ++ [task]).filter Task.hasInputs) := by
    have hold : (s.handed ++ (t.round.blocked ++ t.round.unblocked)).Perm
        (s.tasks.filter Task.hasInputs) := h.tasks
    rw [show s.handed = [] from hhanded, show t.round.unblocked = [] from hunblocked,
      List.nil_append, List.append_nil] at hold
    rw [List.filter_append]
    rcases Round.addTask_cases hround with ⟨hinputs, _, hblocked, _⟩ | ⟨hinputs, _, hblocked, _⟩
    · rw [hblocked, List.filter_cons_of_pos hinputs]
      exact hold.append_right [task]
    · rw [hblocked, List.filter_cons_of_neg (by simp [hinputs]), List.filter_nil, List.append_nil]
      exact hold
  exact {
    watched := hprepared'.watched
    fresh := fun _ => ⟨hprepared', hunblocked', hhanded, hstored⟩
    producers := fun i d => by
      rw [Docket.owed_addTask, List.filter_append, List.map_append, ← h.producers i d]
      exact hproducers i d
    tasks := by
      show (s.handed ++ (t'.round.blocked ++ t'.round.unblocked)).Perm _
      rw [show s.handed = [] from hhanded, hunblocked', List.nil_append, List.append_nil]
      exact htasks
    distinct := (htasks.map Task.id).nodup_iff.mp hprepared'.distinct
    filed := fun i d => by
      show (_ ++ (t'.round.awaited.filter _).map _).Perm (t'.round.entry i d).producers
      rw [hproducers, hawaited, List.filter_append, List.map_append, ← List.append_assoc]
      exact (h.filed i d).append_right _
    holds := fun i d => by
      show (t'.round.entry i d).results <:+ s.stored i d
      rw [hentry]
      exact h.holds i d
    unspent := fun i d hunspent => by
      show (t'.round.entry i d).results = s.stored i d
      rw [hentry]
      exact h.unspent i d hunspent }

/-- Results are taken in, once the round does not collect tasks any more. Whatever their number,
they come with a log that says which record each was filed in, and the docket stores them by this
log as the records do. -/
theorem received {txn : TxnId} {xs : List Delivery} (h : Sound ⟨t, s⟩)
    (htakes : t.round.TakesIn txn t'.round) (hstarted : ¬ Collecting ⟨t', s⟩) :
    Sound ⟨t', { s.gain t.round t'.round with delivered := xs }⟩ := by
  obtain ⟨hwatched, hwaiting, _, _⟩ := htakes.watched h.watched
  obtain ⟨log, hfiles⟩ := htakes.files
  have hstored : ∀ i d, (s.gain t.round t'.round).stored i d
      = s.stored i d ++ (log.filter (Filing.isFor i d)).map Filing.row :=
    Docket.stored_gain hfiles
  exact {
    watched := hwatched
    fresh := fun hnow => absurd hnow hstarted
    producers := fun i d => (htakes.producers i d).trans (h.producers i d)
    tasks := (hwaiting.append_left s.handed).trans h.tasks
    distinct := h.distinct
    filed := fun i d => by
      show (((s.gain t.round t'.round).stored i d).map Prod.fst ++ _).Perm
        (t'.round.entry i d).producers
      rw [htakes.producers, hstored, List.map_append, List.append_assoc]
      exact ((hfiles.partitions i d).symm.append_left _).trans (h.filed i d)
    holds := fun i d => by
      -- The record and the docket gain the same rows at the end.
      show (t'.round.entry i d).results <:+ (s.gain t.round t'.round).stored i d
      obtain ⟨gone, hgone⟩ := h.holds i d
      refine ⟨gone, ?_⟩
      rw [hstored, hfiles.results, ← List.append_assoc]
      exact congrArg (· ++ _) hgone
    unspent := fun i d hunspent => by
      show (t'.round.entry i d).results = (s.gain t.round t'.round).stored i d
      rw [hstored, hfiles.results]
      exact congrArg (· ++ _) (h.unspent i d hunspent) }

/-- Tasks that can go on are handed out. They move from the round to the docket, so that the tasks
waiting and those handed out stay the ones that were added. -/
theorem handed (h : Sound ⟨t, s⟩) (hround : t'.round = { t.round with unblocked := [] })
    (hcollecting : Collecting ⟨t', s⟩ → Collecting ⟨t, s⟩) :
    Sound ⟨t', { s with handed := s.handed ++ t.round.unblocked }⟩ where
  watched := by
    rw [hround]
    exact h.watched.congr rfl rfl rfl
  fresh := fun hnow => by
    obtain ⟨hprepared, hunblocked, hhanded, hstored⟩ := h.fresh (hcollecting hnow)
    refine ⟨?_, ?_, ?_, hstored⟩
    · rw [hround]
      exact hprepared.congr rfl rfl rfl
    · rw [hround]
    · show s.handed ++ t.round.unblocked = []
      rw [show s.handed = [] from hhanded, show t.round.unblocked = [] from hunblocked,
        List.nil_append]
  producers := fun i d => by
    rw [hround]
    exact h.producers i d
  -- The tasks that could go on have moved behind those handed out before.
  tasks := by
    show ((s.handed ++ t.round.unblocked) ++ (t'.round.blocked ++ t'.round.unblocked)).Perm _
    rw [hround, List.append_nil, List.append_assoc]
    exact (List.perm_append_comm.append_left _).trans h.tasks
  distinct := h.distinct
  filed := fun i d => by
    rw [hround]
    exact h.filed i d
  holds := fun i d => by
    rw [hround]
    exact h.holds i d
  unspent := fun i d => by
    rw [hround]
    exact h.unspent i d

/-- Inputs are taken, by whatever task. The records that it draws on are emptied and it counts as
served, so that these records are spent from now on and are not required to hold what was stored. -/
theorem served {task : Task} (h : Sound ⟨t, s⟩) (hemptied : t.round.Emptied t'.round)
    (hothers : ∀ i d, (i, d) ∉ task.draws →
      (t'.round.entry i d).results = (t.round.entry i d).results)
    (hcollecting : Collecting ⟨t', s⟩ → Collecting ⟨t, s⟩) :
    Sound ⟨t', { s with served := s.served ++ [task] }⟩ where
  watched := h.watched.emptied hemptied
  fresh := fun hnow => by
    obtain ⟨hprepared, hunblocked, hhanded, hstored⟩ := h.fresh (hcollecting hnow)
    exact ⟨hprepared.emptied hemptied, hemptied.unblocked.trans hunblocked, hhanded, hstored⟩
  producers := fun i d => (hemptied.producers i d).trans (h.producers i d)
  tasks := by
    show (s.handed ++ t'.round.waiting).Perm _
    rw [hemptied.waiting]
    exact h.tasks
  distinct := h.distinct
  filed := fun i d => by
    show (_ ++ (t'.round.awaited.filter _).map _).Perm (t'.round.entry i d).producers
    rw [hemptied.producers, hemptied.awaited]
    exact h.filed i d
  holds := fun i d => by
    show (t'.round.entry i d).results <:+ s.stored i d
    rcases hemptied.results i d with hsame | hempty
    · rw [hsame]
      exact h.holds i d
    · rw [hempty]
      exact List.nil_suffix
  -- A record that no task has drawn on is not one that this task draws on.
  unspent := fun i d hunspent => by
    have hbefore : ¬ s.Spent i d := fun ⟨u, hu, hdraws⟩ =>
      hunspent ⟨u, List.mem_append_left _ hu, hdraws⟩
    have hnot : (i, d) ∉ task.draws := fun hdraws =>
      hunspent ⟨task, List.mem_append_right _ List.mem_cons_self, hdraws⟩
    exact (hothers i d hnot).trans (h.unspent i d hbefore)

/-- Every operation keeps the invariant. It is the step of the induction over a course, and goes by
the kinds of turns. -/
theorem step (h : k.Sound) (hstep : Step rule k m) : m.Sound := by
  obtain ⟨hturn, hproceeds⟩ := hstep.turn
  -- Every kind of turn has its own lemma above.
  cases hturn with
  | idle hbooks => exact h.same hbooks hproceeds.never_again _
  | added hnow hround => exact h.added hnow hround
  | queued _ hround =>
    refine h.same ?_ hproceeds.never_again _
    rw [hround]
    exact ⟨rfl, rfl, rfl, rfl⟩
  | accepted hstarted hround =>
    exact h.received (Round.takesIn_of_accept hround)
      fun hnow => hstarted (hproceeds.never_again hnow)
  | started _ hfold hround hphase =>
    exact h.received (Round.takesIn_of_start hfold hround) (not_collecting_of_started hphase)
  | handed hround => exact h.handed hround hproceeds.never_again
  | served _ hround =>
    refine h.served (Round.takeInputs_emptied hround) (fun i d hnot => ?_) hproceeds.never_again
    rw [(Round.taskInputs_draws hround).2, if_neg hnot]

/-- So every run keeps it. -/
theorem run (h : k.Sound) (hrun : Run rule k m) : m.Sound := by
  induction hrun with
  | refl => exact h
  | tail _ hstep ih => exact ih.step hstep

end Sound

end Course

end TxnPath
