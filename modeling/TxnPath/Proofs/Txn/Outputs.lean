import Mathlib.Data.List.Nodup
import Mathlib.Data.List.Perm.Subperm
import TxnPath.Proofs.Txn.Course

/-!
# `TxnPath.Proofs.Txn.Outputs`: the order of outputs

A round that starts lists the dependencies of its statements that no task consumes, by statement,
and takes the list as the order of outputs: the first one is read for the first statement, the
second one for the second, and so on. It checks that there are as many as statements, not that
each statement has one.

* `Round.keys` are the places of records in the books. `Round.Registers` relates them to the tasks
  added: a place is listed for what some fragment produces or consumes, and nothing else.
* `Round.ordered` are the outputs with their statements. `Round.diagonal_iff` is the heart: where
  their number is that of the statements, every statement has exactly one of them if and only if
  the output at each position belongs to the statement at this position. From left to right the
  statements of the outputs ascend and so count from zero; from right to left there is no room
  for a second output of any statement.
* `Course.Step.outline` says which operations touch any of this, and `Course.registers_of_run`
  and `Course.fixed_of_run` are what a run keeps before the round starts and after.
-/

set_option autoImplicit false

namespace TxnPath

open Transaction

/-! ### Positions and statements -/

section Diagonal

variable {l : List (Nat × DependencyId)} {n : Nat}

/-- Where every number below `n` has one entry in a list that ascends, the entries are numbered from
zero on. -/
theorem map_fst_eq_range (hbound : ∀ x ∈ l, x.1 < n) (hnodup : l.Nodup)
    (hsorted : l.Pairwise fun a b => a.1 ≤ b.1)
    (hone : ∀ i < n, ∃ d, (i, d) ∈ l ∧ ∀ d', (i, d') ∈ l → d' = d) :
    l.map Prod.fst = List.range n := by
  -- Two lists that ascend are the same if one is a permutation of the other.
  have hdistinct : (l.map Prod.fst).Nodup := by
    refine hnodup.map_on ?_
    intro a ha b hb hab
    obtain ⟨d, _, honly⟩ := hone a.1 (hbound a ha)
    have ha' := honly a.2 ha
    have hb' := honly b.2 (by rw [hab]; exact hb)
    exact Prod.ext hab (ha'.trans hb'.symm)
  have hperm : (l.map Prod.fst).Perm (List.range n) := by
    rw [List.perm_ext_iff_of_nodup hdistinct List.nodup_range]
    intro i
    rw [List.mem_map, List.mem_range]
    constructor
    · rintro ⟨x, hx, rfl⟩
      exact hbound x hx
    · intro hi
      obtain ⟨d, hd, _⟩ := hone i hi
      exact ⟨(i, d), hd, rfl⟩
  have hascends : (l.map Prod.fst).Pairwise (· ≤ ·) := List.pairwise_map.mpr hsorted
  exact hperm.eq_of_pairwise (fun a b _ _ => Nat.le_antisymm) hascends List.pairwise_le_range

/-- Where the entry at each position has the number of its position, there is room for one entry of
each number only. -/
theorem getElem?_of_diagonal
    (hdiagonal : ∀ i d, (l.map Prod.snd)[i]? = some d → (i, d) ∈ l) {i : Nat} {d : DependencyId}
    (h : (i, d) ∈ l) : (l.map Prod.snd)[i]? = some d := by
  -- The entries that stand at the positions of their numbers are as many as there are entries.
  let positions : List (Nat × DependencyId) := (l.map Prod.snd).zipIdx.map Prod.swap
  have hmem : ∀ x : Nat × DependencyId, x ∈ positions ↔ (l.map Prod.snd)[x.1]? = some x.2 := by
    intro x
    simp only [positions, List.mem_map, Prod.exists, List.mem_zipIdx_iff_getElem?]
    constructor
    · rintro ⟨d, i, hget, rfl⟩
      exact hget
    · intro hget
      exact ⟨x.2, x.1, hget, rfl⟩
  have hnodup : positions.Nodup := by
    refine List.Nodup.of_map Prod.fst ?_
    have hnumbers : positions.map Prod.fst = List.range' 0 l.length := by
      simp [positions, List.map_map, Function.comp_def]
    rw [hnumbers]
    exact List.nodup_range'
  have hsub : positions ⊆ l := by
    intro x hx
    exact hdiagonal x.1 x.2 ((hmem x).mp hx)
  have hlength : l.length ≤ positions.length := by simp [positions]
  have hperm := (List.subperm_of_subset hnodup hsub).perm_of_length_le hlength
  exact (hmem (i, d)).mp (hperm.mem_iff.mpr h)

end Diagonal

namespace Round

open DependencyRecord

variable {r r' r'' : Round} {i j n : Nat} {d c : DependencyId} {txn : TxnId}

/-! ### Places of records -/

/-- The places of the records: statement and dependency. -/
def keys (r : Round) : List (Nat × Option DependencyId) :=
  r.records.map fun e => (e.statement, e.dependency)

/-- A record can be found exactly where one is listed. -/
theorem isSome_record?_iff : (r.record? i d).isSome = true ↔ (i, some d) ∈ r.keys := by
  rw [record?, List.find?_isSome, keys, List.mem_map]
  simp only [isFor_iff, Prod.mk.injEq]

/-- Changing a record lists its place, unless it is listed already. The list stays in the order in
which places were first named. -/
theorem keys_updateRecord {change : DependencyRecord → DependencyRecord} (hc : KeepsKey i d change) :
    (r.updateRecord i d change).keys
      = if (i, some d) ∈ r.keys then r.keys else r.keys ++ [(i, some d)] := by
  rw [updateRecord]
  by_cases hlisted : (i, some d) ∈ r.keys
  -- The record is listed, and changed under its key.
  · rw [if_pos (isSome_record?_iff.mpr hlisted), if_pos hlisted]
    simp only [keys, List.map_map]
    refine List.map_congr_left fun e _ => ?_
    show ((if e.isFor i d then change e else e).statement, _) = _
    by_cases he : e.isFor i d = true
    · have hold := isFor_iff.mp he
      have hnew := isFor_iff.mp (hc e he)
      simp [he, hold, hnew]
    · simp [he]
  -- It is not, and a fresh one comes last.
  · rw [if_neg (mt isSome_record?_iff.mp hlisted), if_neg hlisted]
    have hfresh := isFor_iff.mp (hc _ (isFor_fresh i d))
    simp [keys, hfresh]

/-- The second round lists the places of the first one, and new ones. None is listed twice. -/
structure Lists (new : Nat → DependencyId → Prop) (r r' : Round) : Prop where
  distinct : r.keys.Nodup → r'.keys.Nodup
  keys : ∀ i d, (i, some d) ∈ r'.keys ↔ (i, some d) ∈ r.keys ∨ new i d

/-- Changing a record lists its place, if it was not listed, and no place twice. It is in the form
in which such changes can be put one after the other. -/
theorem lists_updateRecord {change : DependencyRecord → DependencyRecord} (hc : KeepsKey i d change) :
    Lists (fun j c => i = j ∧ d = c) r (r.updateRecord i d change) where
  distinct hnodup := by
    rw [keys_updateRecord hc]
    split
    case isTrue => exact hnodup
    -- The record is new, and appended behind the others.
    case isFalse hnew =>
      refine List.nodup_append.mpr ⟨hnodup, by simp, ?_⟩
      intro a ha b hb hab
      rw [List.mem_singleton] at hb
      exact hnew (hb ▸ hab ▸ ha)
  keys j c := by
    rw [keys_updateRecord hc]
    split
    case isTrue hold =>
      constructor
      · exact .inl
      · rintro (hlisted | ⟨rfl, rfl⟩)
        · exact hlisted
        · exact hold
    case isFalse => simp [eq_comm]

/-- Registering an output lists the place that the fragment owes to. -/
theorem lists_registerOutput (p : Nat) (r : Round) (f : Fragment) :
    Lists (fun i d => f.index = i ∧ f.output = some d) r (registerOutput p r f) := by
  cases hf : f.output with
  | none =>
    rw [registerOutput_none hf]
    exact ⟨id, by simp⟩
  | some d =>
    have hlists := lists_updateRecord (r := r) (keepsKey_addProducer p f.index d)
    rw [registerOutput_some hf]
    simp only [Option.some.injEq]
    exact ⟨hlists.distinct, hlists.keys⟩

/-- Registering an input lists the place that the fragment consumes. -/
theorem lists_registerInput (task : TaskId) (r : Round) (f : Fragment) :
    Lists (fun i d => f.index = i ∧ f.input = some d) r (registerInput task r f) := by
  cases hf : f.input with
  | none =>
    rw [registerInput, hf]
    exact ⟨id, by simp⟩
  | some d =>
    have hlists := lists_updateRecord (r := r) (keepsKey_block task f.index d)
    rw [registerInput, hf]
    simp only [Option.some.injEq]
    exact ⟨hlists.distinct, hlists.keys⟩

/-- One fragment after the other lists its places. -/
theorem lists_foldl {new : Fragment → Nat → DependencyId → Prop} {register : Round → Fragment → Round}
    (hstep : ∀ r f, Lists (new f) r (register r f)) (fs : List Fragment) (r : Round) :
    Lists (fun i d => ∃ f ∈ fs, new f i d) r (fs.foldl register r) := by
  induction fs generalizing r with
  | nil => exact ⟨id, by simp⟩
  | cons f rest ih =>
    have hfirst := hstep r f
    have hrest := ih (register r f)
    refine ⟨fun hnodup => hrest.distinct (hfirst.distinct hnodup), fun i d => ?_⟩
    rw [List.foldl_cons, hrest.keys, hfirst.keys, or_assoc]
    simp only [List.mem_cons, exists_eq_or_imp]

/-- What fragments consume is noted, and nothing else. These are the dependencies that do not count
as outputs. -/
theorem mem_internal_foldl (task : TaskId) (fs : List Fragment) (r : Round) (d : DependencyId) :
    d ∈ (fs.foldl (registerInput task) r).internal
      ↔ d ∈ r.internal ∨ ∃ f ∈ fs, f.input = some d := by
  induction fs generalizing r with
  | nil => simp
  | cons f rest ih =>
    -- A fragment marks the dependency that it consumes, unless it is marked already.
    have hfirst : d ∈ (registerInput task r f).internal ↔ d ∈ r.internal ∨ f.input = some d := by
      cases hf : f.input with
      | none => simp [registerInput, hf]
      | some c =>
        simp only [registerInput, hf, Option.some.injEq]
        split
        case isTrue hold =>
          constructor
          · exact .inl
          · rintro (hmem | rfl)
            · exact hmem
            · exact hold
        case isFalse => simp [eq_comm]
    rw [List.foldl_cons, ih, hfirst, or_assoc]
    simp only [List.mem_cons, exists_eq_or_imp]

/-- The books list what the tasks produce and consume, and note what they consume. They are read
when the round starts and results are put in order. -/
structure Registers (r : Round) (tasks : List Task) : Prop where
  distinct : r.keys.Nodup
  keys : ∀ i d, (i, some d) ∈ r.keys ↔ ∃ task ∈ tasks, task.Produces i d ∨ task.Consumes i d
  internal : ∀ d, d ∈ r.internal ↔ ∃ task ∈ tasks, ∃ i, task.Consumes i d

/-- Before any task nothing is listed. -/
theorem registers_empty : empty.Registers [] :=
  ⟨List.nodup_nil, by simp [Round.keys, empty], by simp [empty]⟩

/-- What is listed is a matter of places and internal dependencies, and nothing else of a round. -/
theorem Registers.congr {tasks : List Task} (h : r.Registers tasks) (hkeys : r'.keys = r.keys)
    (hinternal : r'.internal = r.internal) : r'.Registers tasks :=
  ⟨hkeys ▸ h.distinct, hkeys ▸ h.keys, hinternal ▸ h.internal⟩

/-- Adding a task lists what its fragments produce and consume, and marks what they consume as
internal. -/
theorem Registers.addTask {tasks : List Task} {t : Task} {isBlocked : Bool} (h : r.Registers tasks)
    (hadd : r.addTask t = .ok (r', isBlocked)) : r'.Registers (tasks ++ [t]) := by
  have hout := lists_foldl (lists_registerOutput t.destination) t.fragments r
  have hinternal : (t.fragments.foldl (registerOutput t.destination) r).internal = r.internal := by
    rw [(foldl_registerOutput t.destination t.fragments r).1]
  rw [Round.addTask] at hadd
  dsimp only at hadd
  generalize t.fragments.foldl (registerOutput t.destination) r = out at *
  have hin := lists_foldl (lists_registerInput t.id) t.fragments out
  have hnoted := mem_internal_foldl t.id t.fragments out
  -- What is consumed is registered behind what is produced, and only if there is any.
  split at hadd
  case isTrue =>
    generalize t.fragments.foldl (registerInput t.id) out = both at *
    split at hadd
    · cases hadd
    · cases hadd
      refine ⟨hin.distinct (hout.distinct h.distinct), fun i d => ?_, fun d => ?_⟩
      · show (i, some d) ∈ both.keys ↔ _
        rw [hin.keys, hout.keys, h.keys]
        simp only [Task.Produces, Task.Consumes, List.mem_append, List.mem_singleton, or_and_right,
          exists_or, exists_eq_left, or_assoc]
      · show d ∈ both.internal ↔ _
        rw [hnoted, hinternal, h.internal]
        simp only [List.mem_append, List.mem_singleton, or_and_right, exists_or, exists_eq_left]
        refine or_congr_right ⟨?_, ?_⟩
        · rintro ⟨f, hf, hinput⟩
          exact ⟨f.index, f, hf, rfl, hinput⟩
        · rintro ⟨_, f, hf, _, hinput⟩
          exact ⟨f, hf, hinput⟩
  case isFalse hnone =>
    cases hadd
    have hconsumes : ∀ i d, ¬ t.Consumes i d :=
      fun i d hconsumes => hnone (Task.hasInputs_iff.mpr ⟨i, d, hconsumes⟩)
    refine ⟨hout.distinct h.distinct, fun i d => ?_, fun d => ?_⟩
    · rw [hout.keys, h.keys]
      simp only [List.mem_append, List.mem_singleton, or_and_right, exists_or, exists_eq_left,
        hconsumes, or_false]
      rfl
    · rw [hinternal, h.internal]
      simp [or_and_right, exists_or, hconsumes]

/-! ### The outputs with their statements -/

/-- The dependencies of the batch's statements that no task consumes, with their statements, as they
are listed. -/
def candidates (r : Round) : List (Nat × DependencyId) :=
  r.keys.filterMap fun k =>
    k.2.bind fun d => if k.1 < r.batchSize ∧ d ∉ r.internal then some (k.1, d) else none

/-- The same by statement and number. -/
def ordered (r : Round) : List (Nat × DependencyId) :=
  stableSort (fun a b => a.1 < b.1 || (a.1 == b.1 && a.2 ≤ b.2)) r.candidates

/-- The outputs are read off their list with statements. -/
theorem outputs_eq (r : Round) : r.outputs = r.ordered.map Prod.snd := by
  rw [outputs, ordered, candidates, keys, List.filterMap_map]
  rfl

/-- An output is a listed place of a statement of the batch whose dependency no task consumes.
Sorting decides on the order and leaves nothing out. -/
theorem mem_ordered :
    (i, d) ∈ r.ordered ↔ (i, some d) ∈ r.keys ∧ i < r.batchSize ∧ d ∉ r.internal := by
  rw [ordered, mem_stableSort, candidates, List.mem_filterMap]
  constructor
  · rintro ⟨⟨j, o⟩, hk, h⟩
    obtain ⟨c, rfl, h⟩ := Option.bind_eq_some_iff.mp h
    split at h
    case isTrue hcond =>
      cases h
      exact ⟨hk, hcond⟩
    case isFalse => cases h
  · rintro ⟨hk, hcond⟩
    refine ⟨(i, some d), hk, ?_⟩
    simp [hcond]

/-- No output is listed twice, as no place is. -/
theorem nodup_ordered (h : r.keys.Nodup) : r.ordered.Nodup := by
  refine (stableSort_perm _ _).nodup_iff.mpr (h.filterMap ?_)
  rintro ⟨i, o⟩ ⟨j, o'⟩ x hx hx'
  obtain ⟨d, rfl, hx⟩ := Option.bind_eq_some_iff.mp hx
  obtain ⟨d', rfl, hx'⟩ := Option.bind_eq_some_iff.mp hx'
  split at hx
  case isTrue =>
    split at hx'
    case isTrue =>
      cases hx
      cases hx'
      rfl
    case isFalse => cases hx'
  case isFalse => cases hx

/-- Outputs are listed by ascending statement. The order used also compares dependencies; it is
total and transitive, so that sorting by it sorts by statement. -/
theorem pairwise_ordered (r : Round) : r.ordered.Pairwise fun a b => a.1 ≤ b.1 := by
  have htotal : ∀ a b : Nat × Nat, (a.1 < b.1 || (a.1 == b.1 && a.2 ≤ b.2)) = true
      ∨ (b.1 < a.1 || (b.1 == a.1 && b.2 ≤ a.2)) = true := by
    intro a b
    simp only [Bool.or_eq_true, Bool.and_eq_true, beq_iff_eq, decide_eq_true_eq]
    omega
  have htrans : ∀ a b c : Nat × Nat, (a.1 < b.1 || (a.1 == b.1 && a.2 ≤ b.2)) = true →
      (b.1 < c.1 || (b.1 == c.1 && b.2 ≤ c.2)) = true →
      (a.1 < c.1 || (a.1 == c.1 && a.2 ≤ c.2)) = true := by
    intro a b c
    simp only [Bool.or_eq_true, Bool.and_eq_true, beq_iff_eq, decide_eq_true_eq]
    omega
  refine (pairwise_stableSort htotal htrans r.candidates).imp ?_
  intro a b hab
  simp only [Bool.or_eq_true, Bool.and_eq_true, beq_iff_eq, decide_eq_true_eq] at hab
  omega

/-- Where there are as many outputs as statements, each statement has exactly one of them if and only
if the output at each position belongs to the statement at this position. -/
theorem diagonal_iff (hnodup : r.keys.Nodup) (hlength : r.outputs.length = r.batchSize) :
    (∀ i < r.batchSize, ∃ d, (i, d) ∈ r.ordered ∧ ∀ d', (i, d') ∈ r.ordered → d' = d)
      ↔ ∀ i d, r.outputs[i]? = some d → (i, d) ∈ r.ordered := by
  rw [outputs_eq] at hlength ⊢
  constructor
  · intro hone i d hget
    have hbound : ∀ x ∈ r.ordered, x.1 < r.batchSize := fun x hx => (mem_ordered.mp hx).2.1
    -- With one output each, the statements of the outputs count from zero.
    have hnumbers := map_fst_eq_range hbound (nodup_ordered hnodup) r.pairwise_ordered hone
    rw [List.getElem?_map, Option.map_eq_some_iff] at hget
    obtain ⟨⟨j, d'⟩, hget, rfl⟩ := hget
    have hj : (List.range r.batchSize)[i]? = some j := by
      rw [← hnumbers, List.getElem?_map, hget]
      rfl
    obtain ⟨_, hj⟩ := List.getElem?_eq_some_iff.mp hj
    rw [List.getElem_range] at hj
    subst hj
    exact List.mem_of_getElem? hget
  · intro hdiagonal i hi
    have hlt : i < (r.ordered.map Prod.snd).length := by omega
    refine ⟨(r.ordered.map Prod.snd)[i], hdiagonal i _ (List.getElem?_eq_getElem hlt), ?_⟩
    intro d' hd'
    -- A second output of the statement would stand at the same position.
    have hget := getElem?_of_diagonal hdiagonal hd'
    rw [List.getElem?_eq_getElem hlt] at hget
    exact (Option.some.inj hget).symm

/-- Taking inputs moves no record. A run only changes records that it has found, and so never
appends one. -/
theorem keys_takeInputs {base : Nat} {task : TaskId} {fs : List Fragment}
    {taken taken' : List (DependencyId × List ResultTable)}
    (h : takeInputs txn base task r taken fs = .ok (r', taken')) : r'.keys = r.keys := by
  induction fs generalizing r taken with
  | nil =>
    cases h
    rfl
  | cons f rest ih =>
    rw [takeInputs] at h
    split at h
    case h_1 => exact ih h
    case h_2 d _ =>
      split at h
      case isTrue => exact ih h
      case isFalse =>
        split at h
        case h_1 => cases h
        case h_2 e he =>
          split at h
          case isTrue =>
            -- The record that is emptied is listed already.
            rw [ih h, keys_updateRecord (keepsKey_emptied he), if_pos]
            exact isSome_record?_iff.mp (Option.isSome_of_eq_some he)
          case isFalse => cases h

end Round

/-! ### What operations do to the order of outputs -/

namespace Course

variable {rule : Docket → Operation → Prop} {k m : Course}

/-- An operation leaves the order of outputs, the places of records and what is consumed as they
are. -/
structure SameOutline (k m : Course) : Prop where
  tasks : m.docket.tasks = k.docket.tasks
  order : m.txn.round.order = k.txn.round.order
  keys : k.Collecting → m.txn.round.keys = k.txn.round.keys
  internal : k.Collecting → m.txn.round.internal = k.txn.round.internal

section

variable {t t' : Transaction} {s s' : Docket}

/-- Queue, latch, unblocked tasks and the announced size are none of the outline. -/
theorem sameOutline_of_round (htasks : s'.tasks = s.tasks) {latch : Option Latch}
    {queued : List Delivery} {unblocked : List Task} {n : Nat}
    (hround : t'.round = { t.round with
      batchSize := n, latch := latch, queued := queued, unblocked := unblocked }) :
    SameOutline ⟨t, s⟩ ⟨t', s'⟩ := by
  refine ⟨htasks, ?_, fun _ => ?_, fun _ => ?_⟩
  · show t'.round.order = t.round.order
    rw [hround]
  · show t'.round.keys = t.round.keys
    rw [hround]
    rfl
  · show t'.round.internal = t.round.internal
    rw [hround]

/-- An error changes the latch of the round and nothing else there. -/
theorem round_fail (t : Transaction) (e : TxnError) :
    ∃ latch, (t.fail e).round = { t.round with latch := latch } := by
  unfold fail
  split
  · exact ⟨t.round.latch, rfl⟩
  · exact ⟨_, rfl⟩

/-- So does waiting. -/
theorem round_wait (t : Transaction) (timeout : Option Nat) :
    ∃ latch, (t.wait timeout).1.round = { t.round with latch := latch } := by
  rcases wait_eq t timeout with hready | ⟨e, hfailed, _⟩
  · rw [hready]
    exact ⟨t.round.latch, rfl⟩
  · rw [hfailed]
    exact round_fail t.takeError.1 e

end

/-- An operation adds a task to a round that collects them, or starts the round, or leaves the
outline of the books as it is. -/
theorem Step.outline (h : Step rule k m) :
    (k.Collecting ∧ ∃ task isBlocked, k.txn.round.addTask task = .ok (m.txn.round, isBlocked)
        ∧ m.docket.tasks = k.docket.tasks ++ [task])
      ∨ (k.Collecting ∧ ¬ m.Collecting) ∨ SameOutline k m := by
  obtain ⟨op, hstays, hdue, hrun⟩ := h
  rename_i t t' s
  have hsame : ∀ {s' : Docket}, s'.tasks = s.tasks → t'.round = t.round →
      SameOutline ⟨t, s⟩ ⟨t', s'⟩ :=
    fun htasks hround => sameOutline_of_round htasks (by rw [hround])
  cases op with
  | addTask task =>
    obtain ⟨⟨t'', isBlocked⟩, hadd, rfl⟩ := Outcome.map_ok hrun
    obtain ⟨hphase, touched, r, _, hr, rfl⟩ := Transaction.addTask_ok hadd
    exact .inl ⟨hphase, task, isBlocked, hr, rfl⟩
  | startRound p =>
    right
    obtain ⟨hphase, ⟨hbase, rfl⟩ | ⟨rfl, r, _, rfl⟩⟩ := startRound_ok hrun
    · exact .inr (hsame rfl rfl)
    · exact .inl ⟨hphase, not_collecting_of_started (phase_setPhase_self hphase .started)⟩
  -- A round that begins at the base would be another round, which the course excludes.
  | initRound p token =>
    have hbase : p ≠ t.admission.base := by simpa [Operation.staysInRound] using hstays
    obtain ⟨_, _, _, _, ⟨_, rfl⟩ | ⟨hsame, _⟩⟩ := initRound_ok hrun
    · exact .inr (.inr (hsame rfl rfl))
    · exact absurd hsame hbase
  | finishRound p =>
    obtain ⟨_, _, _, ⟨_, rfl⟩ | ⟨_, rfl⟩⟩ := finishRound_ok hrun
    · exact .inr (.inr (hsame rfl rfl))
    · exact .inr (.inr (sameOutline_of_round rfl rfl))
  | addResult x =>
    right; right
    have htasks : ((Operation.addResult x).note t t' s).tasks = s.tasks := by
      rw [Operation.note]
      split <;> rfl
    rcases addResult_ok hrun with ⟨_, rfl⟩ | ⟨_, ⟨_, r, hr, rfl⟩ | ⟨hphase, r, hr, rfl⟩⟩
    · exact hsame htasks rfl
    · exact sameOutline_of_round htasks (Round.enqueue_ok hr)
    · -- Results are filed once the round has started; the order of outputs is fixed by then.
      have hstarted : ¬ Collecting ⟨t, s⟩ := not_collecting_of_started hphase
      exact ⟨htasks, (Round.accept_settles hr).order, fun hnow => absurd hnow hstarted,
        fun hnow => absurd hnow hstarted⟩
  | takeInputs task =>
    obtain ⟨⟨t'', inputs⟩, htake, rfl⟩ := Outcome.map_ok hrun
    obtain ⟨r, hr, rfl⟩ := Transaction.takeInputs_ok htake
    have hbooks := (Round.takeInputs_ok hr).1
    refine .inr (.inr ⟨rfl, ?_, fun _ => Round.keys_takeInputs hr, fun _ => ?_⟩)
    · show r.order = t.round.order
      rw [hbooks]
    · show r.internal = t.round.internal
      rw [hbooks]
  -- The other operations leave the records and the order alone.
  | takeUnblocked =>
    cases hrun
    exact .inr (.inr (sameOutline_of_round rfl rfl))
  | setBatchSize n =>
    cases hrun
    exact .inr (.inr (sameOutline_of_round rfl rfl))
  | readResults =>
    obtain ⟨_, _, rfl⟩ := Outcome.map_ok hrun
    exact .inr (.inr (hsame rfl rfl))
  | fail e =>
    cases hrun
    obtain ⟨latch, hround⟩ := round_fail t e
    exact .inr (.inr (sameOutline_of_round rfl hround))
  | wait timeout =>
    cases hrun
    obtain ⟨latch, hround⟩ := round_wait t timeout
    exact .inr (.inr (sameOutline_of_round rfl hround))
  | acknowledgePrepare partitions =>
    unfold Operation.run acknowledgePrepare at hrun
    dsimp only at hrun
    split at hrun
    · cases hrun
      exact .inr (.inr (hsame rfl rfl))
    · obtain ⟨_, _, rfl⟩ := Outcome.map_ok hrun
      exact .inr (.inr (hsame rfl rfl))
  | takeError | markDone p | expectPrepare partitions | refusePrepare | setLastResults results
    | takeLastResults =>
    cases hrun
    exact .inr (.inr (hsame rfl rfl))
  | finish => cases hstays

/-- While a round collects tasks, its books list what these produce and consume. Only adding a task
changes the lists by then, and there is no way back to collecting. -/
theorem registers_of_run (h : k.Collecting → k.txn.round.Registers k.docket.tasks)
    (hrun : Run rule k m) : m.Collecting → m.txn.round.Registers m.docket.tasks := by
  induction hrun with
  | refl => exact h
  | tail _ hstep ih =>
    intro hcollecting
    -- No operation leads back to collecting tasks, so the round collected them before.
    have hbefore := hstep.turn.2.never_again hcollecting
    rcases hstep.outline with ⟨_, task, _, hadd, htasks⟩ | ⟨_, hstarted⟩ | hsame
    · rw [htasks]
      exact (ih hbefore).addTask hadd
    · exact absurd hcollecting hstarted
    · rw [hsame.tasks]
      exact (ih hbefore).congr (hsame.keys hbefore) (hsame.internal hbefore)

/-- Once a round has started, no task is added to it, and the order of outputs is fixed. -/
theorem fixed_of_run (h : ¬ k.Collecting) (hrun : Run rule k m) :
    ¬ m.Collecting ∧ m.docket.tasks = k.docket.tasks
      ∧ m.txn.round.order = k.txn.round.order := by
  induction hrun with
  | refl => exact ⟨h, rfl, rfl⟩
  | tail _ hstep ih =>
    obtain ⟨hstarted, htasks, horder⟩ := ih
    refine ⟨fun hnow => hstarted (hstep.turn.2.never_again hnow), ?_⟩
    rcases hstep.outline with ⟨hcollecting, _⟩ | ⟨hcollecting, _⟩ | hsame
    · exact absurd hcollecting hstarted
    · exact absurd hcollecting hstarted
    · exact ⟨hsame.tasks.trans htasks, hsame.order.trans horder⟩

end Course

end TxnPath
