import Mathlib.Data.List.Induction
import Mathlib.Data.List.Sort
import TxnPath.Proofs.Histogram.Dense

/-!
# `TxnPath.Proofs.Histogram.Extremes`: what the scans of a histogram find

A histogram over a fixed domain looks for its extremes slot by slot. Its smallest position is the
first that it lists and its largest the last (`minValue?_eq`, `maxValue?_eq`). The scan for the
smallest or largest count keeps the best slot so far and the positions that tie for it, drops them
when a better slot comes, and adds to them on a tie: after any list of entries it holds an extreme
slot of these entries and all of its positions (`foldl_extremes`). The scan for the count alone is
the first half of this one (`fst_extremes`).
-/

set_option autoImplicit false

namespace TxnPath

/-- Two lists that are ordered strictly and have the same members are the same. -/
theorem eq_of_mem_iff_of_pairwise {α : Type} {r : α → α → Prop} {l l' : List α}
    (hasymm : ∀ {a b}, r a b → ¬ r b a) (hl : l.Pairwise r) (hl' : l'.Pairwise r)
    (hmem : ∀ a, a ∈ l ↔ a ∈ l') : l = l' := by
  have hnodup : ∀ {l : List α}, l.Pairwise r → l.Nodup := by
    intro l h
    refine h.imp fun {a b} hab heq => ?_
    subst heq
    exact hasymm hab hab
  refine List.Perm.eq_of_pairwise ?_ hl hl'
    ((List.perm_ext_iff_of_nodup (hnodup hl) (hnodup hl')).mpr hmem)
  intro a b _ _ hab hba
  exact absurd hba (hasymm hab)

namespace DenseHistogram

variable {h : DenseHistogram} {k : Nat} {smallest : Bool} {l : List (Nat × Int)} {b : Int}

/-! ### Positions -/

/-- Entries are in the order of their positions. -/
theorem pairwise_entries (h : DenseHistogram) : h.entries.Pairwise fun e e' => e.1 < e'.1 := by
  have hrange : ((List.range h.size).zip h.slots.toList).Pairwise fun e e' => e.1 < e'.1 := by
    refine List.pairwise_map.mp ?_
    rw [List.map_fst_zip (by simp [size])]
    exact List.pairwise_lt_range
  exact hrange.filter _

/-- And so are the positions themselves. -/
theorem pairwise_values (h : DenseHistogram) : h.values.Pairwise (· < ·) :=
  List.pairwise_map.mpr h.pairwise_entries

/-- A position is contained if its slot does not say that it was not observed. -/
theorem contains_iff : h.contains k = true ↔ ∃ c, h.slots[k]? = some c ∧ c ≠ unseen := by
  rw [contains, get?, Option.isSome_map, Option.isSome_iff_exists]
  simp only [Option.filter_eq_some_iff, decide_eq_true_eq]

/-- The positions listed are those contained. -/
theorem values_eq (h : DenseHistogram) : h.values = (List.range h.size).filter h.contains := by
  refine eq_of_mem_iff_of_pairwise Nat.lt_asymm h.pairwise_values
    (List.pairwise_lt_range.filter _) fun k => ?_
  rw [mem_values, List.mem_filter, List.mem_range, contains_iff]
  refine ⟨fun hk => ⟨?_, hk⟩, And.right⟩
  obtain ⟨c, hc, _⟩ := hk
  exact (Array.getElem?_eq_some_iff.mp hc).1

/-- The scan for the smallest position stops at the first that is listed. -/
theorem minValue?_eq (h : DenseHistogram) : h.minValue? = h.values.head? := by
  rw [values_eq, List.head?_filter, minValue?]

/-- The scan for the largest position ends with the last one. -/
theorem maxValue?_eq (h : DenseHistogram) : h.maxValue? = h.values.getLast? := by
  rw [values_eq, List.getLast?_eq_head?_reverse, ← List.filter_reverse, List.head?_filter,
    maxValue?]

/-! ### Counts -/

/-- Of two counts no more than one is better than the other. -/
theorem better_asymm {a b : Int} (h : better smallest a b = true) : better smallest b a = false := by
  cases smallest <;> simp only [better, Bool.false_eq_true, if_true, if_false, decide_eq_true_eq,
    decide_eq_false_iff_not] at h ⊢ <;> omega

/-- Of two different counts one is better. -/
theorem better_trichotomy {a b : Int} (hne : a ≠ b) (h : better smallest a b = false) :
    better smallest b a = true := by
  cases smallest <;> simp only [better, Bool.false_eq_true, if_true, if_false, decide_eq_true_eq,
    decide_eq_false_iff_not] at h ⊢ <;> omega

/-- What is not better than one slot is not better than a better one. -/
theorem better_of_better {a b c : Int} (h : better smallest a b = false)
    (hbetter : better smallest c b = true) : better smallest a c = false := by
  cases smallest <;> simp only [better, Bool.false_eq_true, if_true, if_false, decide_eq_true_eq,
    decide_eq_false_iff_not] at h hbetter ⊢ <;> omega

/-- A slot of a list that none of the list is better than. -/
structure IsExtreme (smallest : Bool) (l : List (Nat × Int)) (b : Int) : Prop where
  mem : b ∈ l.map Prod.snd
  best : ∀ e ∈ l, better smallest e.2 b = false

/-- An extreme stays one if what is appended is no better. -/
theorem IsExtreme.append {e : Nat × Int} (h : IsExtreme smallest l b)
    (he : better smallest e.2 b = false) : IsExtreme smallest (l ++ [e]) b where
  mem := by
    rw [List.map_append]
    exact List.mem_append_left _ h.mem
  best := List.forall_mem_append.mpr ⟨h.best, List.forall_mem_singleton.mpr he⟩

/-- What is appended and better than the extreme so far is the new one. -/
theorem IsExtreme.replace {e : Nat × Int} (h : IsExtreme smallest l b)
    (he : better smallest e.2 b = true) : IsExtreme smallest (l ++ [e]) e.2 where
  mem := by simp
  best := by
    refine List.forall_mem_append.mpr ⟨fun e' he' => better_of_better (h.best e' he') he, ?_⟩
    refine List.forall_mem_singleton.mpr (Bool.eq_false_iff.mpr fun hself => ?_)
    exact Bool.false_ne_true ((better_asymm hself).symm.trans hself)

/-- The scan for positions finds the slot that the scan for the count finds. The two compare in
different ways: the one asks for ties first, and the other for what is better. -/
theorem fst_extremes (s : Option Int × List Nat) (e : Nat × Int) :
    (extremes smallest s e).1 = extreme smallest s.1 e.2 := by
  obtain ⟨best, ks⟩ := s
  unfold extremes extreme
  by_cases hseen : e.2 = unseen
  · rw [if_pos hseen, if_pos hseen]
  rw [if_neg hseen, if_neg hseen]
  cases best with
  | none => rfl
  | some b =>
    dsimp only
    -- A tie adds a position and keeps the count; otherwise one of the two counts is better.
    by_cases htie : b = e.2
    · subst htie
      rw [if_pos rfl, ite_self]
    · rw [if_neg htie]
      cases hworse : better smallest b e.2 with
      | true => simp [better_asymm hworse]
      | false => simp [better_trichotomy htie hworse]

/-- A scan of observed positions ends with an extreme slot and all of its positions. The induction
adds positions at the end, as the scan meets them. -/
theorem foldl_extremes (hseen : ∀ e ∈ l, e.2 ≠ unseen) :
    l = [] ∧ l.foldl (extremes smallest) (none, []) = (none, [])
      ∨ ∃ b, IsExtreme smallest l b ∧ l.foldl (extremes smallest) (none, [])
          = (some b, (l.filter fun e => e.2 = b).map Prod.fst) := by
  induction l using List.reverseRecOn with
  | nil => exact .inl ⟨rfl, rfl⟩
  | append_singleton l e ih =>
    obtain ⟨hl, he⟩ := List.forall_mem_append.mp hseen
    have hlast := he e List.mem_cons_self
    right
    rw [List.foldl_append, List.foldl_cons, List.foldl_nil]
    rcases ih hl with ⟨rfl, hscan⟩ | ⟨b, hb, hscan⟩
    · refine ⟨e.2, ⟨by simp, by simp [better]⟩, ?_⟩
      rw [hscan, extremes, if_neg hlast]
      simp
    · rw [hscan, extremes, if_neg hlast]
      dsimp only
      split
      case isTrue htie =>
        subst htie
        refine ⟨e.2, hb.append (by simp [better]), by simp⟩
      case isFalse htie =>
        split
        case isTrue hworse =>
          exact ⟨b, hb.append (better_asymm hworse), by simp [Ne.symm htie]⟩
        case isFalse hbetter =>
          have hreplace := better_trichotomy htie (Bool.eq_false_iff.mpr hbetter)
          -- A better slot ties with none before it.
          have hnone : (l.filter fun e' => e'.2 = e.2) = [] := by
            refine List.filter_eq_nil_iff.mpr fun e' he' htie' => ?_
            have hold := hb.best e' he'
            rw [of_decide_eq_true htie', hreplace] at hold
            exact Bool.noConfusion hold
          exact ⟨e.2, hb.replace hreplace, by simp [hnone]⟩

/-- What is not observed does not matter to a scan. -/
theorem foldl_entries (s : Option Int × List Nat) :
    ((List.range h.size).zip h.slots.toList).foldl (extremes smallest) s
      = h.entries.foldl (extremes smallest) s := by
  rw [entries, List.foldl_filter]
  congr 1
  funext s e
  by_cases hseen : e.2 = unseen
  · rw [if_neg (by simp [hseen]), extremes, if_pos hseen]
  · rw [if_pos (by simp [hseen])]

/-- The two scans go over the slots side by side. -/
theorem fst_foldl_extremes (l : List (Nat × Int)) (s : Option Int × List Nat) :
    (l.foldl (extremes smallest) s).1 = (l.map Prod.snd).foldl (extreme smallest) s.1 := by
  induction l generalizing s with
  | nil => rfl
  | cons e l ih => rw [List.foldl_cons, ih, fst_extremes, List.map_cons, List.foldl_cons]

/-- Either no position is observed, or both scans find the extreme count, one of them with the
positions that have it. -/
theorem extremes_spec (h : DenseHistogram) (smallest : Bool) :
    h.entries = [] ∧ h.extremeSlot? smallest = none ∧ h.extremePositions smallest = []
      ∨ ∃ b, IsExtreme smallest h.entries b ∧ h.extremeSlot? smallest = some b
          ∧ h.extremePositions smallest = (h.entries.filter fun e => e.2 = b).map Prod.fst := by
  have hslot : h.extremeSlot? smallest = (h.entries.foldl (extremes smallest) (none, [])).1 := by
    rw [← foldl_entries, fst_foldl_extremes, List.map_snd_zip (by simp [size]), extremeSlot?,
      Array.foldl_toList]
  rw [hslot, extremePositions, foldl_entries]
  rcases foldl_extremes (fun e he => (mem_entries.mp he).2) with ⟨hnone, hscan⟩ | ⟨b, hb, hscan⟩
  · rw [hscan]
    exact .inl ⟨hnone, rfl, rfl⟩
  · rw [hscan]
    exact .inr ⟨b, hb, rfl, rfl⟩

end DenseHistogram

end TxnPath
