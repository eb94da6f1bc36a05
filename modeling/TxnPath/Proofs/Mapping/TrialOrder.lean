import TxnPath.Mapping
import TxnPath.Proofs.Scalar

/-!
# `TxnPath.Proofs.Mapping.TrialOrder`: mappings in the order in which they are tried

Sorting by a key from a linear order puts higher keys first and leaves elements of one key in the
order they came in (`sorted_by_key`). Doubles are not linearly ordered, but all except `NaN` compare as
their places do (`Double.place`, `Double.compare_eq`), so mappings with such coefficients are
tried by descending coefficient (`MappingPolicy.ordered_highest`).
-/

set_option autoImplicit false

namespace TxnPath

/-- Sorting by a key loses nothing and adds nothing, puts higher keys first, and leaves elements of
one key in the order they came in. -/
theorem sorted_by_key {α K : Type} [LinearOrder K] (key : α → K) (xs : List α) :
    let sorted := stableSort (fun a b => decide (key b ≤ key a)) xs
    sorted.Perm xs ∧ sorted.Pairwise (fun a b => key b ≤ key a)
      ∧ ∀ k, sorted.filter (fun a => key a = k) = xs.filter fun a => key a = k := by
  refine ⟨stableSort_perm _ xs, ?_, fun k => filter_stableSort (fun a b ha hb => ?_) xs⟩
  · refine (pairwise_stableSort (fun a b => ?_) (fun a b c hab hbc => ?_) xs).imp of_decide_eq_true
    · simpa using le_total (key b) (key a)
    · rw [decide_eq_true_iff] at hab hbc ⊢
      exact le_trans hbc hab
  · rw [decide_eq_true_iff] at ha hb ⊢
    exact le_of_eq (hb.trans ha.symm)

/-! ### Policies -/

/-- Mappings by descending coefficient, those of one coefficient in the order they came in. It is
what a stable sort makes of them. -/
structure StablyDescending (ms tried : List (Mapping Float)) : Prop where
  perm : tried.Perm ms
  descending : tried.Pairwise fun a b => b.coefficient ≤ a.coefficient
  ties : ∀ x, tried.filter (fun m => m.coefficient == x) = ms.filter fun m => m.coefficient == x

namespace MappingPolicy

/-- Mappings whose coefficients are numbers are tried by descending coefficient, if this is the
policy. -/
theorem ordered_highest {ms : List (Mapping Float)} (h : ∀ m ∈ ms, m.coefficient.isNaN = false) :
    StablyDescending ms (highestCoefficient.ordered ms) := by
  -- Not to be below is to be at least as high only among numbers, so the comparison is changed on
  -- the list before anything is said about the order of places.
  have hsort : highestCoefficient.ordered ms = stableSort
      (fun a b => decide (Double.place b.coefficient ≤ Double.place a.coefficient)) ms :=
    stableSort_congr fun a ha b hb => by
      rw [← decide_not, decide_eq_decide, Double.lt_iff (h a ha) (h b hb), not_lt]
  obtain ⟨hperm, hdescending, hties⟩ :=
    sorted_by_key (fun m : Mapping Float => Double.place m.coefficient) ms
  rw [← hsort] at hperm hdescending hties
  have hmem : ∀ m ∈ highestCoefficient.ordered ms, m.coefficient.isNaN = false := fun m hm =>
    h m (hperm.mem_iff.mp hm)
  refine ⟨hperm, ?_, fun x => ?_⟩
  · refine hdescending.imp_of_mem fun {a b} ha hb hab => ?_
    exact (Double.le_iff (hmem b hb) (hmem a ha)).mpr hab
  · -- Nothing has the coefficient `NaN`, before or after.
    cases hx : x.isNaN with
    | true =>
      have hnone : ∀ l : List (Mapping Float), l.filter (fun m => m.coefficient == x) = [] :=
        fun l => List.filter_eq_nil_iff.mpr fun m _ => by
          rw [Double.beq_nan hx]
          exact Bool.false_ne_true
      rw [hnone, hnone]
    | false =>
      have hkey : ∀ m : Mapping Float, m.coefficient.isNaN = false →
          (m.coefficient == x) = decide (Double.place m.coefficient = Double.place x) :=
        fun m hm => by
          rw [Bool.eq_iff_iff, Double.beq_iff hm hx, decide_eq_true_iff]
      rw [List.filter_congr fun m hm => hkey m (hmem m hm), hties,
        List.filter_congr fun m hm => hkey m (h m hm)]

end MappingPolicy

end TxnPath
