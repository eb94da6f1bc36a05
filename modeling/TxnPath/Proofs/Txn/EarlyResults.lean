import TxnPath.Proofs.Txn.Conservation
import TxnPath.Proofs.Txn.Matching
import TxnPath.Proofs.Txn.Release

/-!
# `TxnPath.Proofs.Txn.EarlyResults`: results that come before the round starts

A result that comes before its round starts is queued, and taken in when the round starts,
without a latch. One that comes afterwards is taken in at once and counts the latch down.

The two ways are compared on the same results in the same order (`Operation.postponed`):

* work is registered alike whatever is queued (`run_withQueue`);
* results that come early are all queued, or one of them is refused, because a result under
  its partition and dependency is queued already (`gather`);
* a round that starts with results queued comes to the state, latch included, that it comes to
  if it starts with none and then takes them in (`Round.start_withQueue`). What it still
  expects is what its queue of fragments lists, and every record is out of the pool: every
  operation keeps this (`Counted.run`).

So results may come early or late, if those that come early come under distinct partitions and
dependencies, and only then (`early_results_iff_distinct`). A dependency of two statements is
owed two results under one partition and dependency: of these only one can come early
(`second_early_result_refused`).
-/

set_option autoImplicit false

namespace TxnPath

/-- The partition and the dependency under which a result comes. -/
def Delivery.key (x : Delivery) : Nat × DependencyId := (x.partition, x.dependency)

/-! ### The pool of records -/

namespace PoolStats

/-- Borrowing records from the pool one by one makes as many more active. -/
theorem active_repeat_borrow (n : Nat) (s : PoolStats) :
    (Nat.repeat borrow n s).active = s.active + n := by
  induction n with
  | zero => rfl
  | succ n ih =>
    show (Nat.repeat borrow n s).active + 1 = _
    rw [ih, Nat.add_assoc]

/-- Giving records back one by one makes as many fewer active, down to none. -/
theorem active_repeat_release (n : Nat) (s : PoolStats) :
    (Nat.repeat release n s).active = s.active - n := by
  induction n with
  | zero => rfl
  | succ n ih =>
    show (Nat.repeat release n s).active - 1 = _
    rw [ih, Nat.sub_sub]

/-- However many records were active, the pool is brought to the number asked for. -/
@[simp] theorem active_reach (s : PoolStats) (n : Nat) : (s.reach n).active = n := by
  rw [reach, active_repeat_release, active_repeat_borrow]
  omega

/-- No object moves if as many are out as are wanted. -/
theorem reach_of_active {s : PoolStats} {n : Nat} (h : s.active = n) : s.reach n = s := by
  rw [reach, h, Nat.sub_self]
  rfl

end PoolStats

/-! ### What does not read the queue of results, or the latch -/

namespace Round

variable {r r' : Round} {txn : TxnId} {x : Delivery} {q : List Delivery} {l : Option Latch}

/-- The round with other results queued. -/
def withQueue (r : Round) (q : List Delivery) : Round := { r with queued := q }

/-- The round with another latch. -/
def withLatch (r : Round) (l : Option Latch) : Round := { r with latch := l }

/-- Changing a record neither reads nor writes the queue of results. -/
theorem updateRecord_withQueue (i : Nat) (d : DependencyId)
    (change : DependencyRecord → DependencyRecord) :
    (r.withQueue q).updateRecord i d change = (r.updateRecord i d change).withQueue q := by
  show (if (r.record? i d).isSome then _ else _) = Round.withQueue (if _ then _ else _) q
  split <;> rfl

/-- Nor does registering outputs. -/
theorem foldl_registerOutput_withQueue (p : Nat) (fs : List Fragment) (r : Round) :
    fs.foldl (registerOutput p) (r.withQueue q)
      = (fs.foldl (registerOutput p) r).withQueue q := by
  induction fs generalizing r with
  | nil => rfl
  | cons f rest ih =>
    have hfirst : registerOutput p (r.withQueue q) f = (registerOutput p r f).withQueue q := by
      unfold registerOutput
      split
      · rfl
      · rw [updateRecord_withQueue]
        rfl
    rw [List.foldl_cons, List.foldl_cons, hfirst, ih]

/-- Nor does registering inputs. So work is registered alike whatever has come early. -/
theorem foldl_registerInput_withQueue (task : TaskId) (fs : List Fragment) (r : Round) :
    fs.foldl (registerInput task) (r.withQueue q)
      = (fs.foldl (registerInput task) r).withQueue q := by
  induction fs generalizing r with
  | nil => rfl
  | cons f rest ih =>
    have hfirst : registerInput task (r.withQueue q) f = (registerInput task r f).withQueue q := by
      unfold registerInput
      split
      · rfl
      · rw [updateRecord_withQueue]
        rfl
    rw [List.foldl_cons, List.foldl_cons, hfirst, ih]

/-- A task is added alike whatever is queued. -/
theorem addTask_withQueue (t : Task) :
    (r.withQueue q).addTask t = (r.addTask t).map fun e => (e.1.withQueue q, e.2) := by
  unfold addTask
  rw [foldl_registerOutput_withQueue]
  simp only [foldl_registerInput_withQueue]
  split
  · -- Whether the number is taken is read off the blocked tasks.
    generalize t.fragments.foldl (registerInput t.id) _ = both
    show (if (both.blocked.any fun b => b.id == t.id) = true then _ else _)
      = Except.map _ (if (both.blocked.any fun b => b.id == t.id) = true then _ else _)
    split <;> rfl
  · rfl

/-- A result is queued unless one under its partition and dependency is queued already. The
statement is not asked for, as a result does not tell it. -/
theorem enqueue_withQueue :
    (r.withQueue q).enqueue x
      = if x.key ∈ q.map Delivery.key then .error (.duplicateResult x.partition x.dependency)
        else .ok (r.withQueue (q ++ [x])) := by
  have hsame : (q.any fun y => y.partition == x.partition && y.dependency == x.dependency) = true
      ↔ x.key ∈ q.map Delivery.key := by
    rw [List.any_eq_true, List.mem_map]
    refine exists_congr fun y => and_congr_right fun _ => ?_
    simp [Delivery.key]
  show (if (q.any fun y => y.partition == x.partition && y.dependency == x.dependency) = true
    then _ else _) = _
  by_cases h : x.key ∈ q.map Delivery.key
  · rw [if_pos (hsame.mpr h), if_pos h]
  · rw [if_neg (fun hany => h (hsame.mp hany)), if_neg h]
    rfl

/-- Another latch leaves the fragments that owe results. -/
@[simp] theorem awaited_withLatch : (r.withLatch l).awaited = r.awaited := rfl

/-- It leaves the blocked tasks. -/
@[simp] theorem blocked_withLatch : (r.withLatch l).blocked = r.blocked := rfl

/-- It leaves the records. -/
@[simp] theorem record?_withLatch (i : Nat) (d : DependencyId) :
    (r.withLatch l).record? i d = r.record? i d := rfl

/-- Unblocking tasks does not look at the latch. -/
theorem foldl_unblock_withLatch (ids : List TaskId) (r : Round) :
    ids.foldl unblock (r.withLatch l) = (ids.foldl unblock r).withLatch l := by
  induction ids generalizing r with
  | nil => rfl
  | cons id rest ih =>
    have hfirst : (r.withLatch l).unblock id = (r.unblock id).withLatch l := by
      cases hfind : r.blocked.find? fun t => t.id == id with
      | none => simp only [unblock, blocked_withLatch, hfind]
      | some t =>
        simp only [unblock, blocked_withLatch, hfind]
        show (if r.inputsReady t = true then _ else _) = Round.withLatch (if _ then _ else _) l
        split <;> rfl
    rw [List.foldl_cons, List.foldl_cons, hfirst, ih]

/-- Neither does changing a record. -/
theorem updateRecord_withLatch (i : Nat) (d : DependencyId)
    (change : DependencyRecord → DependencyRecord) :
    (r.withLatch l).updateRecord i d change = (r.updateRecord i d change).withLatch l := by
  show (if (r.record? i d).isSome then _ else _) = Round.withLatch (if _ then _ else _) l
  split <;> rfl

/-- Settling a fragment counts the latch down, if there is one, and otherwise does the same with and
without it. -/
theorem settled_withLatch (a : Awaited) (e : DependencyRecord) :
    (r.withLatch l).settled a x e = (r.settled a x e).withLatch (l.map Latch.countDown) := by
  unfold settled
  rw [updateRecord_withLatch]
  rfl

/-- A result is taken in alike whatever the latch counts: whether there is a latch at all does not
decide who gets the result or whether it is refused. The latch itself is counted down by one. -/
theorem accept_withLatch :
    (r.withLatch l).accept txn x
      = (r.accept txn x).map fun r' => r'.withLatch (l.map Latch.countDown) := by
  cases hfind : r.awaited.find? fun a => a.accepts x with
  | none =>
    simp only [accept, awaited_withLatch, hfind]
    rfl
  | some a =>
    -- A fragment owes the result, and its record takes it in or refuses it, whatever the latch is.
    cases hrecord : r.record? a.statement x.dependency with
    | none =>
      simp only [accept, awaited_withLatch, hfind, record?_withLatch, hrecord]
      rfl
    | some e =>
      cases hgain : e.addResult x.partition x.table with
      | error f =>
        simp only [accept, awaited_withLatch, hfind, record?_withLatch, hrecord, hgain]
        rfl
      | ok e =>
        simp only [accept, awaited_withLatch, hfind, record?_withLatch, hrecord, hgain]
        show Except.ok (((r.handOut e).2.getD []).foldl unblock
            ((r.withLatch l).settled a x (r.handOut e).1))
          = Except.ok ((((r.handOut e).2.getD []).foldl unblock
              (r.settled a x (r.handOut e).1)).withLatch (l.map Latch.countDown))
        rw [settled_withLatch, foldl_unblock_withLatch]

/-- Any number of results are: each of them counts the latch down. -/
theorem foldlM_accept_withLatch (xs : List Delivery) (r : Round) (count : Nat) :
    xs.foldlM (accept txn) (r.withLatch (some ⟨count⟩))
      = (xs.foldlM (accept txn) r).map fun r' => r'.withLatch (some ⟨count - xs.length⟩) := by
  induction xs generalizing r count with
  | nil => rfl
  | cons x rest ih =>
    rw [List.foldlM_cons, List.foldlM_cons, accept_withLatch]
    cases r.accept txn x with
    | error f => rfl
    | ok m =>
      show rest.foldlM (accept txn) (m.withLatch (some ⟨count - 1⟩)) = _
      rw [ih, List.length_cons, Nat.sub_sub, Nat.add_comm 1]
      rfl

/-- A result changes a record that is listed, and lists no other. So the pool, whose number of
records in use is the length of this list, is where it was. -/
theorem accept_records_length (h : r.accept txn x = .ok r') :
    r'.records.length = r.records.length := by
  obtain ⟨a, ha, hr'⟩ := accept_eq h
  -- A result is taken in by a record that is listed, so that changing it makes no new one.
  have hlisted : (r.record? a.statement x.dependency).isSome = true := by
    unfold accept at h
    rw [ha] at h
    cases hrecord : r.record? a.statement x.dependency with
    | none =>
      simp only [hrecord] at h
      cases h
    | some e => rfl
  have hupdate : ∀ change, (r.updateRecord a.statement x.dependency change).records.length
      = r.records.length := by
    intro change
    unfold updateRecord
    rw [if_pos hlisted]
    exact List.length_map _
  rw [hr', foldl_unblock_eq]
  exact hupdate _

/-- Every result that is taken in counts as received, and none makes a new record. -/
theorem foldlM_accept_counts {xs : List Delivery} (h : xs.foldlM (accept txn) r = .ok r') :
    r'.received = r.received + xs.length ∧ r'.records.length = r.records.length := by
  induction xs generalizing r with
  | nil => cases h; exact ⟨rfl, rfl⟩
  | cons x rest ih =>
    obtain ⟨m, hm, hrest⟩ := Outcome.foldlM_cons_ok h
    obtain ⟨hreceived, hlength⟩ := ih hrest
    obtain ⟨a, _, hbooks, _⟩ := accept_ok hm
    have hfirst : m.received = r.received + 1 := by rw [hbooks]
    refine ⟨?_, hlength.trans (accept_records_length hm)⟩
    rw [hreceived, hfirst, List.length_cons, Nat.add_assoc, Nat.add_comm 1]

/-- A round that starts has no latch yet, since arming one twice is a fault. It is shown for a round
with nothing queued, which is how it is used. -/
theorem unarmed_of_start {failed : Bool} (hqueued : r.queued = [])
    (h : r.start txn failed = .ok r') : r.latch = none := by
  unfold start at h
  rw [hqueued] at h
  split at h
  · cases h
  · split at h
    · cases h
    · split at h
      · cases h
      -- Nothing is queued, so that the run over the queue is no run and the latch is checked as it
      -- was before.
      · change (if _ then _ else if r.latch.isSome then _ else _) = _ at h
        split at h
        · cases h
        · split at h
          · cases h
          · next harmed => simpa using harmed

/-- A round takes in the results that are queued when it starts as it takes them in afterwards. On
the one side the latch is armed last, with what is then outstanding; on the other it is armed first
and counted down, result by result. Both come to the same number, also where an error has opened the
latch. -/
theorem start_withQueue {failed : Bool} {r₁ r₂ : Round} {xs : List Delivery}
    (hqueued : r.queued = []) (hcounters : r.expected = r.received + r.awaited.length)
    (hstart : r.start txn failed = .ok r₁) (haccept : xs.foldlM (accept txn) r₁ = .ok r₂) :
    (r.withQueue xs).start txn failed = .ok r₂ := by
  have hunarmed := unarmed_of_start hqueued hstart
  obtain ⟨m, hm, horder, hbatch, houtputs, rfl⟩ := start_ok hstart
  rw [hqueued] at hm
  obtain rfl := Except.ok.inj hm
  -- The latch aside, the results are taken in alike.
  change xs.foldlM (accept txn) (({ r with order := r.outputs, queued := [] } : Round).withLatch
    (some ⟨if failed then 0 else r.expected - r.received⟩)) = _ at haccept
  rw [foldlM_accept_withLatch] at haccept
  obtain ⟨m, hm, rfl⟩ := Outcome.map_ok haccept
  have hsettles := foldlM_accept_settles hm
  have hexpected : m.expected = r.expected := hsettles.expected
  have hreceived : m.received = r.received + xs.length := (foldlM_accept_counts hm).1
  have hawaited : m.received + m.awaited.length = r.received + r.awaited.length :=
    hsettles.counters
  have hlatch : m.latch = none := hsettles.unarmed hunarmed
  have hnew : ¬ (!(r.withQueue xs).order.isEmpty) = true := by
    show ¬ (!r.order.isEmpty) = true
    rw [horder]
    exact Bool.false_ne_true
  have hmatch : ¬ (r.withQueue xs).outputs.length ≠ (r.withQueue xs).batchSize :=
    not_not_intro houtputs
  have hfold : (r.withQueue xs).queued.foldlM (accept txn)
      { r.withQueue xs with order := (r.withQueue xs).outputs, queued := [] } = .ok m := hm
  rw [start, if_neg hnew, if_neg (show ¬ (r.withQueue xs).batchSize = 0 from hbatch),
    if_neg hmatch, hfold]
  show (if m.expected < m.received then _ else if m.latch.isSome = true then _
    else Except.ok (m.withLatch (some ⟨if failed then 0 else m.expected - m.received⟩))) = _
  rw [if_neg (by omega), hlatch, if_neg (by simp)]
  -- What is outstanding when the latch is armed is what it has been counted down to otherwise.
  have hcount : (if failed then 0 else m.expected - m.received)
      = (if failed then 0 else r.expected - r.received) - xs.length := by
    cases failed
    · show m.expected - m.received = r.expected - r.received - xs.length
      omega
    · exact (Nat.zero_sub _).symm
  rw [hcount]

/-- The number of results expected is that of those taken in and those awaited. -/
def Counts (r : Round) : Prop := r.expected = r.received + r.awaited.length

/-- The counters go on agreeing with the queue of fragments, as what leaves the queue is counted as
received. -/
theorem Settles.counts (h : r.Settles r') (hcounts : r.Counts) : r'.Counts := by
  show r'.expected = r'.received + r'.awaited.length
  rw [h.expected, h.counters]
  exact hcounts

end Round

namespace Transaction

variable {t t' u : Transaction} {q : List Delivery} {x : Delivery} {op : Operation}

/-! ### Counters -/

/-- The counters agree with what the books list. -/
structure Counted (t : Transaction) : Prop where
  counts : t.round.Counts
  pooled : t.recordPool.active = t.round.records.length

/-- Setting a round brings the pool to the number of its records, so that only the counters are to
be checked. -/
theorem counted_setRound {r : Round} (h : r.Counts) : (t.setRound r).Counted :=
  ⟨h, PoolStats.active_reach _ _⟩

namespace Counted

/-- This reads the pool and four fields of the round. -/
theorem congr (h : t.Counted) (hpool : t'.recordPool = t.recordPool)
    (hrecords : t'.round.records = t.round.records)
    (hexpected : t'.round.expected = t.round.expected)
    (hreceived : t'.round.received = t.round.received)
    (hawaited : t'.round.awaited = t.round.awaited) : t'.Counted where
  counts := by
    show t'.round.expected = t'.round.received + t'.round.awaited.length
    rw [hexpected, hreceived, hawaited]
    exact h.counts
  pooled := by
    rw [hpool, hrecords]
    exact h.pooled

/-- An error concerns neither the counters nor the records. -/
theorem fail (h : t.Counted) (e : TxnError) : (t.fail e).Counted := by
  unfold Transaction.fail
  split
  · exact h
  · exact h.congr rfl rfl rfl rfl rfl

/-- Nor does reporting it. -/
theorem takeError (h : t.Counted) : t.takeError.1.Counted := h.congr rfl rfl rfl rfl rfl

/-- Starting a round receives what was queued and makes no records. -/
theorem startRound {p : Nat} (h : t.Counted) (hok : t.startRound p = .ok t') : t'.Counted := by
  obtain ⟨_, ⟨_, rfl⟩ | ⟨_, r, hr, rfl⟩⟩ := startRound_ok hok
  · exact h.congr rfl rfl rfl rfl rfl
  · obtain ⟨m, hm, _, _, _, rfl⟩ := Round.start_ok hr
    have hm := (Round.foldlM_accept_settles hm).counts h.counts
    exact counted_setRound hm

/-- A task expects results and makes records, and the pool follows. -/
theorem addTask {task : Task} {isBlocked : Bool} (h : t.Counted)
    (hok : t.addTask task = .ok (t', isBlocked)) : t'.Counted := by
  obtain ⟨_, touched, r, _, hr, rfl⟩ := addTask_ok hok
  obtain ⟨hbooks, _⟩ := Round.addTask_ok hr
  refine counted_setRound ?_
  rw [hbooks]
  show t.round.expected + task.owed.length
    = t.round.received + (t.round.awaited ++ task.owed).length
  rw [List.length_append, ← Nat.add_assoc]
  exact congrArg (· + task.owed.length) h.counts

/-- A result is received, or queued without being counted. -/
theorem addResult (h : t.Counted) (hok : t.addResult x = .ok t') : t'.Counted := by
  rcases addResult_ok hok with ⟨_, rfl⟩ | ⟨_, ⟨_, r, hr, rfl⟩ | ⟨_, r, hr, rfl⟩⟩
  · exact h
  · refine counted_setRound ?_
    rw [Round.enqueue_ok hr]
    exact h.counts
  · exact counted_setRound ((Round.accept_settles hr).counts h.counts)

/-- Every operation keeps the counters right. A new round starts from nothing, and otherwise only
tasks that are added and results that are taken in move the counters, each together with the queue;
the pool follows the records wherever a round is set. -/
theorem run (h : t.Counted) (hok : op.run t = .ok t') : t'.Counted := by
  cases op with
  -- At the base partition a new round begins, for which all records go back to the pool.
  | initRound p token =>
    obtain ⟨_, _, _, _, ⟨_, rfl⟩ | ⟨_, rfl⟩⟩ := initRound_ok hok
    · exact h.congr rfl rfl rfl rfl rfl
    · exact ⟨rfl, PoolStats.active_reach _ _⟩
  | startRound p => exact h.startRound hok
  | finishRound p =>
    obtain ⟨_, _, _, ⟨_, rfl⟩ | ⟨_, rfl⟩⟩ := finishRound_ok hok
    · exact h.congr rfl rfl rfl rfl rfl
    · exact h.congr rfl rfl rfl rfl rfl
  | addTask task =>
    obtain ⟨⟨_, _⟩, hadd, rfl⟩ := Outcome.map_ok hok
    exact h.addTask hadd
  | addResult x => exact h.addResult hok
  | takeInputs task =>
    obtain ⟨⟨_, _⟩, htake, rfl⟩ := Outcome.map_ok hok
    obtain ⟨r, hr, rfl⟩ := takeInputs_ok htake
    refine counted_setRound ?_
    rw [(Round.takeInputs_ok hr).1]
    exact h.counts
  | readResults =>
    obtain ⟨_, _, rfl⟩ := Outcome.map_ok hok
    exact h
  | fail e => cases hok; exact h.fail e
  | takeError => cases hok; exact h.takeError
  | wait timeout =>
    cases hok
    rcases wait_eq t timeout with hsame | ⟨e, htimeout, _⟩
    · exact hsame ▸ h.takeError
    · exact htimeout ▸ (h.takeError.fail e).takeError
  | acknowledgePrepare partitions =>
    change t.acknowledgePrepare partitions = .ok t' at hok
    unfold acknowledgePrepare at hok
    split at hok
    · cases hok; exact h
    · obtain ⟨_, _, rfl⟩ := Outcome.map_ok hok
      exact h.congr rfl rfl rfl rfl rfl
  -- What is left touches neither the books nor the pool.
  | setBatchSize n => cases hok; exact h.congr rfl rfl rfl rfl rfl
  | takeUnblocked => cases hok; exact h.congr rfl rfl rfl rfl rfl
  | markDone p => cases hok; exact h.congr rfl rfl rfl rfl rfl
  | expectPrepare partitions => cases hok; exact h.congr rfl rfl rfl rfl rfl
  | refusePrepare => cases hok; exact h.congr rfl rfl rfl rfl rfl
  | setLastResults results => cases hok; exact h.congr rfl rfl rfl rfl rfl
  | takeLastResults => cases hok; exact h.congr rfl rfl rfl rfl rfl
  | finish => cases hok; exact ⟨rfl, PoolStats.active_reach _ _⟩

/-- A round that begins expects nothing, and no record is out of the pool. -/
theorem begin {token : Nat} (hok : t.initRound t.admission.base token = .ok t') : t'.Counted := by
  obtain ⟨_, _, _, _, ⟨hbase, _⟩ | ⟨_, rfl⟩⟩ := initRound_ok hok
  · exact absurd rfl hbase
  · exact ⟨rfl, PoolStats.active_reach _ _⟩

/-- Every operation keeps counters and pool in step, and so does a run. -/
theorem foldlM_run {ops : List Operation} (h : t.Counted)
    (hok : ops.foldlM Operation.run t = .ok t') : t'.Counted := by
  induction ops generalizing t with
  | nil => cases hok; exact h
  | cons op rest ih =>
    obtain ⟨m, hm, hrest⟩ := Outcome.foldlM_cons_ok hok
    exact ih (h.run hm) hrest

end Counted

/-! ### Before the round starts -/

namespace Operation

/-- The operation registers work of the round. -/
def registers : Operation → Bool
  | .setBatchSize _ | .addTask _ => true
  | _ => false

/-- The result that the operation delivers. -/
def delivery? : Operation → Option Delivery
  | .addResult x => some x
  | _ => none

/-- Registers the work of operations, starts the round and then delivers their results. -/
def postponed (base : Nat) (ops : List Operation) : List Operation :=
  ops.filter registers ++ .startRound base :: (ops.filterMap delivery?).map .addResult

end Operation

/-- A transaction that work is registered for, and that queues results: it is under way and has no
error. -/
structure Gathering (t : Transaction) : Prop where
  unfinished : t.isFinished = false
  unfailed : t.hasFailed = false
  initialized : t.phase t.admission.base = .ok .initialized

/-- The transaction with other results queued. -/
def withQueue (t : Transaction) (q : List Delivery) : Transaction :=
  { t with round := t.round.withQueue q }

/-- What another queue changes is the round. -/
@[simp] theorem round_withQueue : (t.withQueue q).round = t.round.withQueue q := rfl

/-- Another queue leaves the admission. -/
@[simp] theorem admission_withQueue : (t.withQueue q).admission = t.admission := rfl

/-- It leaves the counts of touched partitions. -/
@[simp] theorem touched_withQueue : (t.withQueue q).touched = t.touched := rfl

/-- It leaves the phases. -/
@[simp] theorem phase_withQueue (p : Nat) : (t.withQueue q).phase p = t.phase p := rfl

/-- It leaves whether the transaction has finished. -/
@[simp] theorem isFinished_withQueue : (t.withQueue q).isFinished = t.isFinished := rfl

/-- It leaves whether the transaction has failed. -/
@[simp] theorem hasFailed_withQueue : (t.withQueue q).hasFailed = t.hasFailed := rfl

/-- Work is registered alike whatever is queued. It is stated for the operations that register work,
since the others do read the queue. -/
theorem run_withQueue (hop : op.registers = true) :
    op.run (t.withQueue q) = (op.run t).map fun t' => t'.withQueue q := by
  cases op with
  | setBatchSize n => rfl
  | addTask task =>
    show ((t.withQueue q).addTask task).map Prod.fst
      = ((t.addTask task).map Prod.fst).map fun t' => t'.withQueue q
    -- All that the guards of adding a task read is the same with another queue.
    simp only [addTask, admission_withQueue, phase_withQueue, touched_withQueue, round_withQueue,
      Round.addTask_withQueue]
    cases t.phase t.admission.base with
    | error f => rfl
    | ok phase =>
      simp only
      split
      · rfl
      · cases t.touched.add? task.destination task.fragments.length with
        | error f => rfl
        | ok touched =>
          cases t.round.addTask task with
          | error cause => rfl
          | ok e => rfl
  | _ => cases hop

/-- What registering work leaves alone. -/
theorem Gathering.run (h : t.Gathering) (hop : op.registers = true) (hok : op.run t = .ok t') :
    t'.Gathering ∧ t'.admission = t.admission ∧ t'.round.queued = t.round.queued := by
  cases op with
  | setBatchSize n =>
    cases hok
    exact ⟨⟨h.unfinished, h.unfailed, h.initialized⟩, rfl, rfl⟩
  | addTask task =>
    obtain ⟨⟨_, _⟩, hadd, rfl⟩ := Outcome.map_ok hok
    obtain ⟨_, touched, r, _, hr, rfl⟩ := addTask_ok hadd
    refine ⟨⟨h.unfinished, h.unfailed, h.initialized⟩, rfl, ?_⟩
    show r.queued = t.round.queued
    rw [(Round.addTask_ok hr).1]
  | _ => cases hop

/-- A transaction goes on gathering while work is registered, and its queue of results stays as it
is. -/
theorem Gathering.foldlM_run {ops : List Operation} (h : t.Gathering)
    (hops : ∀ op ∈ ops, op.registers = true) (hok : ops.foldlM Operation.run t = .ok u) :
    u.Gathering ∧ u.admission = t.admission ∧ u.round.queued = t.round.queued := by
  induction ops generalizing t with
  | nil => cases hok; exact ⟨h, rfl, rfl⟩
  | cons op rest ih =>
    obtain ⟨hop, hrest⟩ := List.forall_mem_cons.mp hops
    obtain ⟨m, hm, hlater⟩ := Outcome.foldlM_cons_ok hok
    obtain ⟨hgathering, hadmission, hqueued⟩ := h.run hop hm
    obtain ⟨hlast, hadmission', hqueued'⟩ := ih hgathering hrest hlater
    exact ⟨hlast, hadmission'.trans hadmission, hqueued'.trans hqueued⟩

/-- A result is queued, or it is the second one under its partition and dependency. This is all that
happens to a result before the round starts, whatever work is registered. -/
theorem addResult_withQueue (h : t.Gathering) (hcounted : t.Counted) :
    (t.withQueue q).addResult x
      = if x.key ∈ q.map Delivery.key then
          .error (t.fault (.duplicateResult x.partition x.dependency))
        else .ok (t.withQueue (q ++ [x])) := by
  simp only [addResult, admission_withQueue, phase_withQueue, isFinished_withQueue,
    hasFailed_withQueue, round_withQueue, h.initialized, h.unfinished, h.unfailed,
    Round.enqueue_withQueue]
  by_cases hkey : x.key ∈ q.map Delivery.key
  · rw [if_pos hkey, if_pos hkey]
    rfl
  · rw [if_neg hkey, if_neg hkey]
    show Except.ok ((t.withQueue q).setRound (t.round.withQueue (q ++ [x]))) = _
    -- The books list what they listed, so that the pool hands out no record.
    unfold setRound
    show Except.ok { t with
      round := t.round.withQueue (q ++ [x])
      recordPool := t.recordPool.reach t.round.records.length } = _
    rw [PoolStats.reach_of_active hcounted.pooled]
    rfl

/-- Work is registered, and results come meanwhile. Either they come under distinct partitions
and dependencies, and all of them are queued, or the second one under the same two is
refused. -/
theorem gather {before : List Operation} (h : t.Gathering) (hcounted : t.Counted)
    (hbefore : ∀ op ∈ before, op.registers = true ∨ op.delivery?.isSome = true)
    (hregistered : (before.filter Operation.registers).foldlM Operation.run t = .ok u)
    (hdistinct : (q.map Delivery.key).Nodup) :
    let queue := q ++ before.filterMap Operation.delivery?
    ((queue.map Delivery.key).Nodup
        ∧ before.foldlM Operation.run (t.withQueue q) = .ok (u.withQueue queue))
      ∨ (¬ (queue.map Delivery.key).Nodup ∧ ∃ p d,
        before.foldlM Operation.run (t.withQueue q) = .error (t.fault (.duplicateResult p d))) := by
  -- By the operations before the start. The queue is general: what comes early lengthens it.
  induction before generalizing t q with
  | nil =>
    cases hregistered
    rw [List.filterMap_nil, List.append_nil]
    exact .inl ⟨hdistinct, rfl⟩
  | cons op rest ih =>
    obtain ⟨hop, hrest⟩ := List.forall_mem_cons.mp hbefore
    by_cases hregisters : op.registers = true
    · rw [List.filter_cons_of_pos hregisters] at hregistered
      obtain ⟨m, hm, hlater⟩ := Outcome.foldlM_cons_ok hregistered
      obtain ⟨hgathering, hadmission, _⟩ := h.run hregisters hm
      have hnone : op.delivery? = none := by
        cases op with
        | addResult x => cases hregisters
        | _ => rfl
      have hfault : ∀ cause, m.fault cause = t.fault cause := by
        intro cause
        rw [fault, fault, hadmission]
      have hfirst : (op :: rest).foldlM Operation.run (t.withQueue q)
          = rest.foldlM Operation.run (m.withQueue q) := by
        rw [List.foldlM_cons, run_withQueue hregisters, hm]
        rfl
      rw [List.filterMap_cons_none hnone, hfirst]
      simp only [← hfault]
      exact ih hgathering (hcounted.run hm) hrest hlater hdistinct
    · rw [List.filter_cons_of_neg hregisters] at hregistered
      obtain ⟨x, hx⟩ := Option.isSome_iff_exists.mp (hop.resolve_left hregisters)
      obtain rfl : op = .addResult x := by
        cases op with
        | addResult y => exact congrArg Operation.addResult (Option.some.inj hx)
        | _ => cases hx
      rw [List.filterMap_cons_some hx, List.foldlM_cons]
      show (_ ∧ (t.withQueue q).addResult x >>= _ = _)
        ∨ (_ ∧ ∃ p d, (t.withQueue q).addResult x >>= _ = _)
      rw [addResult_withQueue h hcounted]
      by_cases hkey : x.key ∈ q.map Delivery.key
      · refine .inr ⟨fun hnodup => ?_, x.partition, x.dependency, ?_⟩
        · rw [List.map_append, List.map_cons] at hnodup
          exact List.disjoint_of_nodup_append hnodup hkey List.mem_cons_self
        · rw [if_pos hkey]
          rfl
      · -- The result is queued, and the keys stay distinct.
        rw [if_neg hkey]
        have hlonger : ((q ++ [x]).map Delivery.key).Nodup := by
          rw [List.map_append, List.map_singleton]
          refine List.nodup_append.mpr ⟨hdistinct, List.nodup_singleton _, fun a ha b hb hab => ?_⟩
          exact hkey (List.mem_singleton.mp hb ▸ hab ▸ ha)
        have hrest := ih h hcounted hrest hregistered hlonger
        rw [List.append_assoc, List.singleton_append] at hrest
        exact hrest

/-! ### When the round starts -/

/-- Results that are taken in one after the other change the round only. Neither the transaction nor
its pool notices, so that the run can be told by the round alone. -/
theorem foldlM_addResult_of_accepting {xs : List Delivery} (h : t.Accepting) (hcounted : t.Counted)
    (hok : xs.foldlM addResult t = .ok t') :
    ∃ r, xs.foldlM (Round.accept t.admission.txn) t.round = .ok r ∧ t' = { t with round := r } := by
  induction xs generalizing t with
  | nil =>
    cases hok
    exact ⟨_, rfl, rfl⟩
  | cons x rest ih =>
    obtain ⟨m, hm, hrest⟩ := Outcome.foldlM_cons_ok hok
    have hm' := hcounted.addResult hm
    obtain ⟨haccepting, r, hr, rfl⟩ := h.addResult hm
    obtain ⟨r', hr', rfl⟩ := ih haccepting hm' hrest
    refine ⟨r', ?_, ?_⟩
    · rw [List.foldlM_cons, hr]
      exact hr'
    -- The pool is where it should be already, as no record was made.
    · unfold setRound
      rw [PoolStats.reach_of_active (hcounted.pooled.trans (Round.accept_records_length hr).symm)]

/-- A transaction starts its round with results queued as it takes them in afterwards. To the
account of the round this adds the guards of the transaction: it must accept each result, and its
pool must have grown as far. -/
theorem startRound_withQueue {xs : List Delivery} {v w : Transaction} (h : t.Gathering)
    (hcounted : t.Counted) (hqueued : t.round.queued = [])
    (hstart : t.startRound t.admission.base = .ok v) (hresults : xs.foldlM addResult v = .ok w) :
    (t.withQueue xs).startRound t.admission.base = .ok w := by
  have hv := hcounted.startRound hstart
  obtain ⟨hphase, ⟨hbase, _⟩ | ⟨_, r₁, hr₁, rfl⟩⟩ := startRound_ok hstart
  · exact absurd rfl hbase
  have hset := phase_setPhase_self hphase .started
  -- Started without a queue, the transaction accepts the results one by one; the round that starts
  -- with all of them in its queue comes to the same.
  have haccepting : ((t.setPhase t.admission.base .started).setRound r₁).Accepting :=
    ⟨h.unfinished, h.unfailed, hset⟩
  obtain ⟨r₂, hr₂, rfl⟩ := foldlM_addResult_of_accepting haccepting hv hresults
  have hround := Round.start_withQueue hqueued hcounted.counts hr₁ hr₂
  have hlength : r₂.records.length = r₁.records.length := (Round.foldlM_accept_counts hr₂).2
  unfold startRound
  rw [phase_withQueue, hphase]
  show (if t.admission.base ≠ t.admission.base then _ else
    ((t.round.withQueue xs).start t.admission.txn t.pendingError.isSome).map _) = _
  rw [if_neg (not_not_intro rfl), hround]
  show Except.ok _ = Except.ok _
  unfold setRound
  show Except.ok { t.setPhase t.admission.base .started with
    round := r₂
    recordPool := t.recordPool.reach r₂.records.length } = _
  rw [hlength]
  rfl

/-! ### Early and late results -/

/-- Results that come late: work is registered, the round starts, and they are taken in. -/
theorem postponed_ok {base : Nat} {ops : List Operation} {w : Transaction}
    (h : (Operation.postponed base ops).foldlM Operation.run t = .ok w) :
    ∃ u v, (ops.filter Operation.registers).foldlM Operation.run t = .ok u
      ∧ u.startRound base = .ok v
      ∧ (ops.filterMap Operation.delivery?).foldlM addResult v = .ok w := by
  rw [Operation.postponed, List.foldlM_append] at h
  obtain ⟨u, hu, hrest⟩ := Outcome.bind_ok h
  obtain ⟨v, hv, hw⟩ := Outcome.foldlM_cons_ok hrest
  rw [List.foldlM_map] at hw
  exact ⟨u, v, hu, hv, hw⟩

/-- Take a round that has begun at the base partition, in which anything has been done, and in
which no result is queued. In it work is registered, and results come meanwhile, before the
round starts. Suppose that the round takes in the same results in the same order once it has
started, and goes on from there. Then it comes to the same state if they come early, if and only if
they come under distinct partitions and dependencies. Otherwise the second result under the
same two is refused before the round starts. -/
theorem early_results_iff_distinct {t₁ t₀ t t' : Transaction} {token : Nat}
    {setup before after : List Operation}
    (hbegin : t₁.initRound t₁.admission.base token = .ok t₀)
    (hsetup : setup.foldlM Operation.run t₀ = .ok t) (hgathering : t.Gathering)
    (hqueued : t.round.queued = [])
    (hbefore : ∀ op ∈ before, op.registers = true ∨ op.delivery?.isSome = true)
    (hlate : (Operation.postponed t.admission.base before ++ after).foldlM Operation.run t
      = .ok t') :
    let keys := (before.filterMap Operation.delivery?).map Delivery.key
    ((before ++ Operation.startRound t.admission.base :: after).foldlM Operation.run t = .ok t'
        ↔ keys.Nodup)
      ∧ (¬ keys.Nodup → ∃ p d,
        before.foldlM Operation.run t = .error (t.fault (.duplicateResult p d))) := by
  have hcounted := (Counted.begin hbegin).foldlM_run hsetup
  -- The late run, taken apart.
  rw [List.foldlM_append] at hlate
  obtain ⟨w, hpostponed, hafter⟩ := Outcome.bind_ok hlate
  obtain ⟨u, v, hu, hv, hw⟩ := postponed_ok hpostponed
  have hregisters : ∀ op ∈ before.filter Operation.registers, op.registers = true :=
    fun op hop => (List.mem_filter.mp hop).2
  obtain ⟨hu', hadmission, huqueued⟩ := hgathering.foldlM_run hregisters hu
  have hstart : u.startRound u.admission.base = .ok v := by
    rw [hadmission]
    exact hv
  have hsame : t.withQueue [] = t := by
    unfold withQueue Round.withQueue
    rw [← hqueued]
  have hearly := gather hgathering hcounted hbefore hu
    (show (([] : List Delivery).map Delivery.key).Nodup from List.nodup_nil)
  rw [List.nil_append, hsame] at hearly
  rcases hearly with ⟨hdistinct, hok⟩ | ⟨hrepeated, hfault⟩
  · -- All of them are queued, and the round starts with them.
    refine ⟨iff_of_true ?_ hdistinct, fun hrepeated => absurd hdistinct hrepeated⟩
    have hstarted := startRound_withQueue hu' (hcounted.foldlM_run hu) (huqueued.trans hqueued)
      hstart hw
    rw [hadmission] at hstarted
    rw [List.foldlM_append, hok]
    show (Operation.startRound t.admission.base :: after).foldlM Operation.run _ = _
    rw [List.foldlM_cons]
    show (Transaction.withQueue u _).startRound t.admission.base >>= _ = _
    rw [hstarted]
    exact hafter
  · refine ⟨iff_of_false (fun hok => ?_) hrepeated, fun _ => hfault⟩
    obtain ⟨p, d, hfault⟩ := hfault
    rw [List.foldlM_append, hfault] at hok
    cases hok

/-- A result that comes early, even before the task is registered that owes it. -/
def earlyDelivery : List Operation :=
  [.setBatchSize 2, .addResult ⟨0, 5, ⟨["a"], []⟩⟩, .addTask (pairTask 5 6)]

/-- Two results under different dependencies, of which the first comes early in one run and late in
the other. Both runs come to the same transaction, latch included. -/
theorem early_results_iff_distinct_pair :
    ∃ t₁ t₀ t', Transaction.start soloAdmission 0 = .ok t₁ ∧ t₁.initRound 0 1 = .ok t₀
      ∧ (Operation.postponed 0 earlyDelivery
          ++ [Operation.addResult ⟨0, 6, ⟨["b"], []⟩⟩]).foldlM Operation.run t₀ = .ok t'
      ∧ (earlyDelivery ++ Operation.startRound 0
          :: [Operation.addResult ⟨0, 6, ⟨["b"], []⟩⟩]).foldlM Operation.run t₀ = .ok t' := by
  obtain ⟨t₁, t₀, t', hstart, hinit, hbase, hbase', hgathering, hqueued, hlate⟩ :
      ∃ t₁ t₀ t', Transaction.start soloAdmission 0 = .ok t₁ ∧ t₁.initRound 0 1 = .ok t₀
        ∧ t₁.admission.base = 0 ∧ t₀.admission.base = 0 ∧ t₀.Gathering ∧ t₀.round.queued = []
        ∧ (Operation.postponed 0 earlyDelivery
            ++ [Operation.addResult ⟨0, 6, ⟨["b"], []⟩⟩]).foldlM Operation.run t₀ = .ok t' :=
    ⟨_, _, _, rfl, rfl, rfl, rfl, ⟨rfl, rfl, rfl⟩, rfl, rfl⟩
  -- The one result that comes early is alone under its key.
  have hbefore : ∀ op ∈ earlyDelivery, op.registers = true ∨ op.delivery?.isSome = true := by
    simp [earlyDelivery, Operation.registers, Operation.delivery?]
  have hearly := (early_results_iff_distinct (hbase.symm ▸ hinit)
    (show ([] : List Operation).foldlM Operation.run t₀ = .ok t₀ from rfl) hgathering hqueued
    hbefore (hbase'.symm ▸ hlate)).1.mpr (List.nodup_singleton _)
  exact ⟨t₁, t₀, t', hstart, hinit, hlate, hbase' ▸ hearly⟩

/-- Two results that come early for a dependency of two statements. -/
def twinDelivery : List Operation :=
  [.setBatchSize 2, .addTask (pairTask 5 5), .addResult ⟨0, 5, ⟨["a"], []⟩⟩,
    .addResult ⟨0, 5, ⟨["b"], []⟩⟩]

/-- The round takes both of them in once it has started, and refuses the second one before. -/
theorem second_early_result_refused :
    ∃ t₁ t₀ t', Transaction.start soloAdmission 0 = .ok t₁ ∧ t₁.initRound 0 1 = .ok t₀
      ∧ (Operation.postponed 0 twinDelivery).foldlM Operation.run t₀ = .ok t'
      ∧ t'.results = .ok [⟨["a"], []⟩, ⟨["b"], []⟩]
      ∧ twinDelivery.foldlM Operation.run t₀ = .error (t₀.fault (.duplicateResult 0 5)) :=
  ⟨_, _, _, rfl, rfl, rfl, rfl, rfl⟩

end Transaction

end TxnPath
