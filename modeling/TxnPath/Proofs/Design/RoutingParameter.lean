import Mathlib.Algebra.BigOperators.Group.List.Basic
import Mathlib.Algebra.Order.Ring.Rat
import Mathlib.Data.List.Perm.Subperm
import Mathlib.Data.Nat.Find
import Mathlib.Order.Bounds.Basic
import TxnPath.Design.Planner
import TxnPath.Proofs.Mapping.Filing

/-!
# `TxnPath.Proofs.Design.RoutingParameter`: the parameter that a procedure is routed by

A planner sums up how strongly each parameter of a procedure is correlated with partitioning
columns, and takes the first of the strongest ones. `Planner.correlation` is this sum, read off the
list of recorded mappings and the plan: `Planner.Counts` says which mappings are in it. The search
looks at the occurrences of a statement from zero on and stops at the first that has no mappings.
There is such a gap at the number of mappings or before (`Planner.occurrences_spec`), and what
the search collects up to it are the mappings that count (`Planner.collected_perm`).

All scores are filled in by one pass over the mappings. They are the sums that every parameter has on
its own, added up in the same order and thus the same for doubles (`Planner.getElem?_scores`). Over
exact rationals these are the correlations (`Planner.score_eq`).
-/

set_option autoImplicit false

namespace TxnPath

/-! ### Lists -/

/-- Elements picked by one key after another are those that have one of the keys, if no element has
two of them. -/
theorem flatMap_filter_perm {α σ : Type} {p : σ → α → Bool} {keys : List σ} (l : List α)
    (hdisjoint : keys.Pairwise fun k k' => ∀ a, p k a = true → p k' a = false) :
    (keys.flatMap fun k => l.filter (p k)).Perm (l.filter fun a => keys.any fun k => p k a) := by
  induction keys with
  | nil => simp
  | cons k keys ih =>
    obtain ⟨hk, hkeys⟩ := List.pairwise_cons.mp hdisjoint
    have hsplit := List.filter_append_perm (p k) (l.filter fun a => (k :: keys).any fun k => p k a)
    rw [List.filter_filter, List.filter_filter] at hsplit
    rw [List.flatMap_cons]
    refine ((ih hkeys).append_left _).trans (List.Perm.trans (.of_eq ?_) hsplit)
    refine congrArg₂ (· ++ ·) (List.filter_congr fun a _ => ?_) (List.filter_congr fun a _ => ?_)
    · simp +contextual [List.any_cons]
    -- An element that has the first key has none of the others.
    · cases ha : p k a with
      | false => simp [List.any_cons, ha]
      | true =>
        have hnone : (keys.any fun k => p k a) = false :=
          List.any_eq_false.mpr fun k' hk' => Bool.eq_false_iff.mp (hk k' hk' a ha)
        simp [hnone]

/-- Summing up what several lists have is summing up their sums. -/
theorem sum_map_flatMap {α β : Type} (f : α → List β) (g : β → Rat) (l : List α) :
    ((l.flatMap f).map g).sum = (l.map fun a => ((f a).map g).sum).sum := by
  rw [List.map_flatMap, List.flatMap_def, List.sum_flatten, List.map_map]
  rfl

/-- Going up from zero stops at the first number that fails the test. -/
theorem takeWhile_range {p : Nat → Bool} {gap n : Nat} (hgap : IsLeast {i | ¬ p i = true} gap)
    (hle : gap ≤ n) : (List.range n).takeWhile p = List.range gap := by
  have hbefore : ∀ i ∈ List.range gap, p i = true := fun i hi =>
    not_not.mp fun hfails => absurd (hgap.2 hfails) (Nat.not_le_of_gt (List.mem_range.mp hi))
  obtain ⟨k, rfl⟩ := Nat.exists_eq_add_of_le hle
  rw [List.range_add, List.takeWhile_append_of_pos hbefore]
  cases k with
  | zero => rw [List.range_zero, List.map_nil, List.takeWhile_nil, List.append_nil]
  | succ k =>
    rw [List.range_succ_eq_map, List.map_cons, Nat.add_zero, List.takeWhile_cons_of_neg hgap.1,
      List.append_nil]

namespace MappingTable

variable {R : Type}

/-- Whether a table has mappings for an occurrence of a statement. -/
def Knows (t : MappingTable R) (procedure : ProcedureId) (statement : StatementId)
    (occurrence : Nat) : Prop :=
  ∃ m ∈ t.toList, m.key = ⟨procedure, statement, occurrence⟩

instance (t : MappingTable R) (procedure : ProcedureId) (statement : StatementId)
    (occurrence : Nat) : Decidable (t.Knows procedure statement occurrence) :=
  inferInstanceAs (Decidable (∃ m ∈ t.toList, m.key = ⟨procedure, statement, occurrence⟩))

/-- An occurrence is known if a mapping of its statement was recorded for it. -/
theorem knows_iff (t : MappingTable R) (procedure : ProcedureId) (statement : StatementId)
    (occurrence : Nat) : t.Knows procedure statement occurrence
      ↔ (!(t.ofStatement procedure statement occurrence).isEmpty) = true := by
  rw [Bool.not_eq_true', List.isEmpty_eq_false_iff, ofStatement_eq, ne_eq, List.filter_eq_nil_iff]
  simp [Knows]

/-- With as many occurrences as a table has mappings, and one more, there is one it knows nothing
of. -/
theorem exists_not_knows (t : MappingTable R) (procedure : ProcedureId) (statement : StatementId) :
    ∃ i ≤ t.size, ¬ t.Knows procedure statement i := by
  by_contra hall
  have hsubset : List.range (t.size + 1) ⊆ t.toList.map Mapping.occurrence := by
    intro i hi
    have hknows : t.Knows procedure statement i := not_not.mp fun hnot =>
      hall ⟨i, Nat.lt_succ_iff.mp (List.mem_range.mp hi), hnot⟩
    obtain ⟨m, hm, hkey⟩ := hknows
    exact List.mem_map.mpr ⟨m, hm, congrArg MappingKey.occurrence hkey⟩
  have hlength := (List.nodup_range.subperm hsubset).length_le
  rw [List.length_range, List.length_map, length_toList] at hlength
  omega

end MappingTable

namespace Planner

/-! ### The occurrences of a statement -/

section Occurrences

variable {R : Type} {d : Planner R} {p : Procedure} {s : Statement}

/-- The search goes through the occurrences of a statement up to the first that has no mappings, and
comes upon it when it has seen as many occurrences as there are mappings, or earlier. -/
theorem occurrences_spec (d : Planner R) (p : Procedure) (s : Statement) :
    ∃ gap ≤ d.mappings.size, IsLeast {i | ¬ d.mappings.Knows p.id s.id i} gap
      ∧ d.occurrences p s = List.range gap := by
  obtain ⟨i, hi, hnot⟩ := d.mappings.exists_not_knows p.id s.id
  have hexists : ∃ i, ¬ d.mappings.Knows p.id s.id i := ⟨i, hnot⟩
  obtain ⟨gap, hgap, hle⟩ : ∃ gap, IsLeast {i | ¬ d.mappings.Knows p.id s.id i} gap ∧ gap ≤ i :=
    ⟨Nat.find hexists, ⟨Nat.find_spec hexists, fun _ => Nat.find_min' hexists⟩,
      Nat.find_min' hexists hnot⟩
  refine ⟨gap, hle.trans hi, hgap, ?_⟩
  simp only [MappingTable.knows_iff] at hgap
  exact takeWhile_range hgap (hle.trans hi)

/-- The search reaches an occurrence if there are mappings for it and for all before. -/
theorem any_occurrences (d : Planner R) (p : Procedure) (s : Statement) (occurrence : Nat) :
    (d.occurrences p s).any (fun i => occurrence = i) = true
      ↔ ∀ i ≤ occurrence, d.mappings.Knows p.id s.id i := by
  obtain ⟨gap, -, hgap, hoccurrences⟩ := d.occurrences_spec p s
  simp only [hoccurrences, List.any_eq_true, List.mem_range, decide_eq_true_eq, exists_eq_right']
  constructor
  · intro hlt i hi
    exact not_not.mp fun hnot => absurd (hgap.2 hnot) (Nat.not_le_of_gt (lt_of_le_of_lt hi hlt))
  · intro hall
    exact Nat.lt_of_not_le fun hle => hgap.1 (hall gap hle)

end Occurrences

/-! ### What a parameter scores -/

section Correlation

variable {R : Type}

/-- A mapping counts for a procedure by one of its statements, if it is for an occurrence that has no
gap before it, and for a parameter that is bound to the column a plan hashes a table by. -/
structure Counts (d : Planner R) (p : Procedure) (plan : Plan R) (s : Statement) (m : Mapping R) :
    Prop where
  procedure : m.procedure = p.id
  statement : m.statement = s.id
  unbroken : ∀ i ≤ m.occurrence, d.mappings.Knows p.id s.id i
  bound : ∃ column, s.params[m.slot]? = some (some column)
    ∧ plan.tables[column.table]? = some (.hash column.column)

/-- A parameter is bound to a partitioning column, and the plan says so. -/
theorem bindsPartitioning_iff {plan : Plan R} {s : Statement} {slot : Nat} :
    bindsPartitioning plan (s.params[slot]?).join = true ↔
      ∃ column, s.params[slot]? = some (some column)
        ∧ plan.tables[column.table]? = some (.hash column.column) := by
  rw [bindsPartitioning, Option.any_eq_true]
  refine exists_congr fun column => and_congr Option.join_eq_some_iff ?_
  rw [beq_iff_eq, Plan.column?]
  split
  case h_1 hashed htable => simp [htable]
  case h_2 hnone => simpa using fun htable => hnone _ htable

/-- A mapping counts if it is of this procedure and statement, if no occurrence up to its own is
missing, and if it feeds a parameter that is bound to a partitioning column. -/
theorem counts_iff (d : Planner R) (p : Procedure) (plan : Plan R) (s : Statement) (m : Mapping R) :
    d.Counts p plan s m ↔ m.procedure = p.id ∧ m.statement = s.id
      ∧ (∀ i ≤ m.occurrence, d.mappings.Knows p.id s.id i)
      ∧ bindsPartitioning plan (s.params[m.slot]?).join = true := by
  rw [bindsPartitioning_iff]
  exact ⟨fun h => ⟨h.procedure, h.statement, h.unbroken, h.bound⟩,
    fun ⟨hp, hs, hunbroken, hbound⟩ => ⟨hp, hs, hunbroken, hbound⟩⟩

instance (d : Planner R) (p : Procedure) (plan : Plan R) (s : Statement) (m : Mapping R) :
    Decidable (d.Counts p plan s m) :=
  decidable_of_iff _ (d.counts_iff p plan s m).symm

/-- How strongly a parameter is correlated with partitioning columns: the sum of the coefficients
that count, statement by statement. -/
def correlation (d : Planner Rat) (p : Procedure) (plan : Plan Rat) (argument : Nat) : Rat :=
  (p.statements.map fun s =>
    ((d.mappings.toList.filter fun m => d.Counts p plan s m ∧ m.argument = argument).map
      Mapping.coefficient).sum).sum

/-- What the search collects for a statement are the mappings that count by it. The search goes by
occurrences and stops at the first without mappings, while counting goes through all mappings once.
Their order differs, which a sum of exact numbers does not show. -/
theorem collected_perm (d : Planner R) (p : Procedure) (plan : Plan R) (s : Statement) :
    ((d.occurrences p s).flatMap fun i => (d.mappings.ofStatement p.id s.id i).filter fun m =>
        bindsPartitioning plan (s.params[m.slot]?).join).Perm
      (d.mappings.toList.filter fun m => d.Counts p plan s m) := by
  -- At one occurrence, the mappings collected are those that would count there.
  have hone : ∀ i, (d.mappings.ofStatement p.id s.id i).filter
        (fun m => bindsPartitioning plan (s.params[m.slot]?).join)
      = (d.mappings.toList.filter fun m => m.procedure = p.id ∧ m.statement = s.id
          ∧ bindsPartitioning plan (s.params[m.slot]?).join = true).filter
        fun m => m.occurrence = i := by
    intro i
    rw [MappingTable.ofStatement_eq, List.filter_filter, List.filter_filter]
    refine List.filter_congr fun m _ => ?_
    rw [Bool.eq_iff_iff]
    simp only [Bool.and_eq_true, decide_eq_true_eq, Mapping.key, MappingKey.mk.injEq]
    tauto
  -- No mapping is collected at two occurrences.
  have hdisjoint : (d.occurrences p s).Pairwise fun i j =>
      ∀ m : Mapping R, decide (m.occurrence = i) = true → decide (m.occurrence = j) = false := by
    obtain ⟨gap, -, -, hoccurrences⟩ := d.occurrences_spec p s
    rw [hoccurrences]
    exact List.nodup_range.imp fun hne m hi => decide_eq_false fun hj =>
      hne ((of_decide_eq_true hi).symm.trans hj)
  simp only [hone]
  refine (flatMap_filter_perm _ hdisjoint).trans (.of_eq ?_)
  rw [List.filter_filter]
  refine List.filter_congr fun m _ => ?_
  rw [Bool.eq_iff_iff, Bool.and_eq_true, any_occurrences, decide_eq_true_iff, decide_eq_true_iff,
    counts_iff]
  tauto

/-- The mappings that count for choosing the routing parameter, in the order in which the search comes
upon them: those of statement parameters that are bound to a partitioning column. -/
def relevant (d : Planner R) (p : Procedure) (plan : Plan R) : List (Mapping R) :=
  p.statements.flatMap fun s =>
    (d.occurrences p s).flatMap fun i =>
      (d.mappings.ofStatement p.id s.id i).filter fun m =>
        bindsPartitioning plan (s.params[m.slot]?).join

section Pass

variable [Scalar R]

/-- How strongly a parameter is correlated with partitioning columns, on its own. -/
def score (d : Planner R) (p : Procedure) (plan : Plan R) (argument : Nat) : R :=
  Scalar.sum (((d.relevant p plan).filter fun m => m.argument == argument).map Mapping.coefficient)

/-- One pass over the statements counts the mappings that are relevant, one after the other. -/
theorem scores_eq_foldl (d : Planner R) (p : Procedure) (plan : Plan R) :
    d.scores p plan = (d.relevant p plan).foldl
      (fun scores m => scores.modify m.argument fun score => score + m.coefficient)
      (Array.replicate p.params.length 0) := by
  simp only [scores, relevant, List.foldl_flatMap, List.foldl_filter]
  rfl

/-- Counting mappings adds to each score the coefficients of the mappings with its argument, in the
order in which they come. -/
theorem getElem?_foldl_modify (ms : List (Mapping R)) (scores : Array R) (i : Nat) :
    (ms.foldl (fun scores m => scores.modify m.argument fun score => score + m.coefficient) scores)[i]?
      = scores[i]?.map fun score =>
          ((ms.filter fun m => m.argument == i).map Mapping.coefficient).foldl (· + ·) score := by
  induction ms generalizing scores with
  | nil => simp
  | cons m ms ih =>
    rw [List.foldl_cons, ih, Array.getElem?_modify, List.filter_cons]
    by_cases hargument : m.argument = i
    · rw [if_pos hargument, if_pos (beq_iff_eq.mpr hargument), Option.map_map, List.map_cons]
      rfl
    · rw [if_neg hargument, if_neg (by simpa using hargument)]

/-- The scores that one pass fills in are those that every parameter has on its own, in any
arithmetic. -/
theorem getElem?_scores (d : Planner R) (p : Procedure) (plan : Plan R) {i : Nat}
    (hi : i < p.params.length) : (d.scores p plan)[i]? = some (d.score p plan i) := by
  rw [scores_eq_foldl, getElem?_foldl_modify, Array.getElem?_replicate, if_pos hi]
  rfl

end Pass

/-- A parameter scores as strongly as it is correlated. -/
theorem score_eq (d : Planner Rat) (p : Procedure) (plan : Plan Rat) (argument : Nat) :
    d.score p plan argument = d.correlation p plan argument := by
  have hsum : ∀ xs : List Rat, Scalar.sum xs = xs.sum := fun xs => List.sum_eq_foldl.symm
  rw [score, hsum, relevant, List.filter_flatMap, sum_map_flatMap, correlation]
  refine congrArg List.sum (List.map_congr_left fun s _ => ?_)
  have hperm := (d.collected_perm p plan s).filter fun m => m.argument == argument
  rw [(hperm.map Mapping.coefficient).sum_eq, List.filter_filter]
  refine congrArg (fun ms : List (Mapping Rat) => (ms.map Mapping.coefficient).sum)
    (List.filter_congr fun m _ => ?_)
  rw [Bool.eq_iff_iff]
  simp [and_comm]

/-- Where statements have numbers of their own, a mapping counts by one statement only. So the sum
over statements of sums over mappings is one sum, over the mappings that count at all. -/
theorem correlation_eq (d : Planner Rat) (p : Procedure) (plan : Plan Rat)
    (hids : (p.statements.map Statement.id).Nodup) (argument : Nat) :
    d.correlation p plan argument = ((d.mappings.toList.filter fun m =>
      (∃ s ∈ p.statements, d.Counts p plan s m) ∧ m.argument = argument).map
        Mapping.coefficient).sum := by
  -- A mapping names the statement that it counts by.
  have hdisjoint : p.statements.Pairwise fun s s' => ∀ m,
      decide (d.Counts p plan s m ∧ m.argument = argument) = true →
        decide (d.Counts p plan s' m ∧ m.argument = argument) = false :=
    (List.pairwise_map.mp hids).imp fun hne m hs => decide_eq_false fun hs' =>
      hne ((of_decide_eq_true hs).1.statement.symm.trans hs'.1.statement)
  have hperm := flatMap_filter_perm d.mappings.toList hdisjoint
  rw [correlation, ← sum_map_flatMap, (hperm.map Mapping.coefficient).sum_eq]
  refine congrArg (fun ms : List (Mapping Rat) => (ms.map Mapping.coefficient).sum)
    (List.filter_congr fun m _ => ?_)
  rw [Bool.eq_iff_iff]
  simp only [List.any_eq_true, decide_eq_true_eq]
  exact ⟨fun ⟨s, hs, hcounts, hargument⟩ => ⟨⟨s, hs, hcounts⟩, hargument⟩,
    fun ⟨⟨s, hs, hcounts⟩, hargument⟩ => ⟨s, hs, hcounts, hargument⟩⟩

end Correlation

/-! ### The first of the greatest -/

/-- Going through candidates in ascending order finds the least of those with the greatest score. A
candidate takes the place of the best so far only if it is strictly better, so that among equals the
first one stays, which is the least. -/
theorem isLeast_bestOf (score : Nat → Rat) {best : Nat} {is : List Nat}
    (hasc : (best :: is).Pairwise (· ≤ ·)) :
    IsLeast {i | i ∈ best :: is ∧ ∀ j ∈ best :: is, score j ≤ score i} (bestOf score best is) := by
  induction is generalizing best with
  | nil => simp [bestOf, IsLeast, lowerBounds]
  | cons i is ih =>
    obtain ⟨hbest, htail⟩ := List.pairwise_cons.mp hasc
    rw [bestOf]
    split
    -- The new one is strictly better than the best so far, and takes its place.
    case isTrue hlt =>
      obtain ⟨⟨hmem, hmax⟩, hleast⟩ := ih htail
      have hgreater : score best < score (bestOf score i is) :=
        lt_of_lt_of_le hlt (hmax i List.mem_cons_self)
      refine ⟨⟨List.mem_cons_of_mem _ hmem, List.forall_mem_cons.mpr ⟨hgreater.le, hmax⟩⟩, ?_⟩
      rintro k ⟨hk, hkmax⟩
      rcases List.mem_cons.mp hk with rfl | hk
      · exact absurd (hkmax i (List.mem_cons_of_mem _ List.mem_cons_self)) (not_le_of_gt hlt)
      · exact hleast ⟨hk, fun j hj => hkmax j (List.mem_cons_of_mem _ hj)⟩
    -- The best so far is at least as good, and stays.
    case isFalse hnot =>
      have hle : score i ≤ score best := le_of_not_gt hnot
      have hskip : List.Sublist (best :: is) (best :: i :: is) :=
        (List.sublist_cons_self i is).cons_cons best
      obtain ⟨⟨hmem, hmax⟩, hleast⟩ := ih (hasc.sublist hskip)
      obtain ⟨hmaxBest, hmaxRest⟩ := List.forall_mem_cons.mp hmax
      refine ⟨⟨hskip.subset hmem, ?_⟩, ?_⟩
      · exact List.forall_mem_cons.mpr ⟨hmaxBest,
          List.forall_mem_cons.mpr ⟨hle.trans hmaxBest, hmaxRest⟩⟩
      · rintro k ⟨hk, hkmax⟩
        have hkbest : ∀ j ∈ best :: is, score j ≤ score k := fun j hj => hkmax j (hskip.subset hj)
        rcases List.mem_cons.mp hk with rfl | hk
        · exact hleast ⟨List.mem_cons_self, hkbest⟩
        · rcases List.mem_cons.mp hk with rfl | hk
          · -- If the one that was passed over is as good, so is the one before.
            have hsame : ∀ j ∈ best :: is, score j ≤ score best := fun j hj =>
              (hkbest j hj).trans hle
            exact (hleast ⟨List.mem_cons_self, hsame⟩).trans (hbest k List.mem_cons_self)
          · exact hleast ⟨List.mem_cons_of_mem _ hk, hkbest⟩

/-- Among all parameters, the lowest of those with the greatest score is chosen. -/
theorem isLeast_bestOf_range (score : Nat → Rat) {n : Nat} (hn : 0 < n) :
    IsLeast {i | i < n ∧ ∀ j < n, score j ≤ score i} (bestOf score 0 (List.range n)) := by
  have hmem : ∀ i, i ∈ 0 :: List.range n ↔ i < n := fun i => by
    rw [List.mem_cons, List.mem_range]
    exact or_iff_right_of_imp fun hi => hi ▸ hn
  have hleast := isLeast_bestOf score
    (List.pairwise_cons.mpr ⟨fun i _ => Nat.zero_le i, List.pairwise_le_range (n := n)⟩)
  simpa only [hmem] using hleast

/-- The parameter taken is the first of the strongest. The scores are looked up in the table that one
pass has filled in. -/
theorem isLeast_bestParameter (d : Planner Rat) (p : Procedure) (plan : Plan Rat)
    (hparams : p.params ≠ []) :
    IsLeast {i | i < p.params.length
        ∧ ∀ j < p.params.length, d.correlation p plan j ≤ d.correlation p plan i}
      (d.bestParameter p plan) := by
  have hscore : ∀ i < p.params.length,
      ((d.scores p plan)[i]?).getD 0 = d.correlation p plan i := fun i hi => by
    rw [d.getElem?_scores p plan hi, Option.getD_some, score_eq]
  have hleast := isLeast_bestOf_range (fun i => ((d.scores p plan)[i]?).getD 0)
    (List.length_pos_iff.mpr hparams)
  refine Eq.mp (congrArg₂ IsLeast (Set.ext fun i => ?_) rfl) hleast
  exact and_congr_right fun hi => forall₂_congr fun j hj => by rw [hscore i hi, hscore j hj]

/-- The parameter that a procedure is routed by is the lowest of those that are most strongly
correlated with partitioning columns, and one that the procedure has. The search for it ends: for
every statement it stops at the first occurrence without mappings, which is not beyond the number of
all mappings. Where statements have numbers of their own, no mapping counts twice. -/
theorem bestParameter_strongest (d : Planner Rat) (p : Procedure) (plan : Plan Rat)
    (hparams : p.params ≠ []) :
    (∀ s ∈ p.statements, ∃ gap ≤ d.mappings.size,
        IsLeast {i | ¬ d.mappings.Knows p.id s.id i} gap ∧ d.occurrences p s = List.range gap)
      ∧ IsLeast {i | i < p.params.length
          ∧ ∀ j < p.params.length, d.correlation p plan j ≤ d.correlation p plan i}
        (d.bestParameter p plan)
      ∧ ((p.statements.map Statement.id).Nodup → ∀ argument,
          d.correlation p plan argument = ((d.mappings.toList.filter fun m =>
            (∃ s ∈ p.statements, d.Counts p plan s m) ∧ m.argument = argument).map
              Mapping.coefficient).sum) :=
  ⟨fun s _ => d.occurrences_spec p s, d.isLeast_bestParameter p plan hparams,
    fun hids => d.correlation_eq p plan hids⟩

/-- A transfer takes an amount from one account and pays it into another. -/
def transfer : Procedure :=
  ⟨0, "transfer", [⟨"payer", false⟩, ⟨"payee", false⟩, ⟨"amount", false⟩],
    [⟨0, "debit", .update, ["ACCOUNTS"], [none, some ⟨"ACCOUNTS", "ID"⟩]⟩,
      ⟨1, "credit", .update, ["ACCOUNTS"], [none, some ⟨"ACCOUNTS", "ID"⟩]⟩], false, false, none⟩

/-- Accounts are hashed by their number. -/
def transferPlan : Plan Rat := ⟨(∅ : ByName Partitioning).insert "ACCOUNTS" (.hash "ID"), ∅, 0⟩

/-- Transfers were seen to pay into one account twice. The amount is not bound to a partitioning
column, a fourth payment is behind a gap, and a parameter with the number seven is unknown. -/
def transferPlanner : Planner Rat :=
  ⟨⟨2, [⟨"ACCOUNTS", ["ID"], ["ID"], none⟩], [transfer]⟩, ⟨∅, ∅⟩,
    .ofList [⟨0, 0, 0, 1, 0, none, 3 / 4⟩, ⟨0, 1, 0, 1, 1, none, 1 / 2⟩, ⟨0, 1, 1, 1, 1, none, 1 / 2⟩,
      ⟨0, 1, 3, 1, 0, none, 5⟩, ⟨0, 0, 0, 0, 2, none, 9⟩, ⟨0, 0, 0, 1, 7, none, 9⟩], .empty⟩

/-- Transfers are routed by the account that is paid into. -/
theorem bestParameter_strongest_transfer :
    transfer.params ≠ [] ∧ transferPlanner.bestParameter transfer transferPlan = 1
      ∧ IsLeast {i | i < 3 ∧ ∀ j < 3, transferPlanner.correlation transfer transferPlan j
          ≤ transferPlanner.correlation transfer transferPlan i} 1
      ∧ (List.range 3).map (transferPlanner.correlation transfer transferPlan) = [3 / 4, 1, 0] := by
  have hparams : transfer.params ≠ [] := List.cons_ne_nil _ _
  have hbest : transferPlanner.bestParameter transfer transferPlan = 1 := by decide +kernel
  have hleast := (bestParameter_strongest transferPlanner transfer transferPlan hparams).2.1
  rw [hbest] at hleast
  exact ⟨hparams, hbest, hleast, by decide +kernel⟩

end Planner

end TxnPath
