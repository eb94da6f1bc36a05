import TxnPath.Histogram.Dense
import TxnPath.Proofs.Outcome

/-!
# `TxnPath.Proofs.Histogram.Dense`: what a histogram lists

A slot of `-1` says that a position is not observed, so a count whose bits read `-1`
hides its position again. Counts below `2 ^ 63` never do: as long as only such counts are
added, every slot is unobserved or not negative (`Countable`), a position that is counted
is listed (`mem_values_add?`), and it stays listed (`values_subset_add?`).
-/

set_option autoImplicit false

namespace TxnPath.DenseHistogram

variable {h h' : DenseHistogram} {k n : Nat}

/-- The entries pair every position with its slot, unless that is the one for unobserved
positions. -/
theorem mem_entries {c : Int} : (k, c) ∈ h.entries ↔ h.slots[k]? = some c ∧ c ≠ unseen := by
  rw [entries, List.mem_filter, decide_eq_true_eq, List.mem_iff_getElem?]
  refine and_congr_left fun _ => ⟨?_, fun hc => ⟨k, ?_⟩⟩
  · rintro ⟨i, hi⟩
    obtain ⟨hk, hc⟩ := List.getElem?_zip_eq_some.mp hi
    obtain ⟨hlt, hik⟩ := List.getElem?_eq_some_iff.mp hk
    rw [List.getElem_range] at hik
    subst hik
    rw [← Array.getElem?_toList]
    exact hc
  · have hlt : k < h.size := (Array.getElem?_eq_some_iff.mp hc).1
    refine List.getElem?_zip_eq_some.mpr ⟨List.getElem?_range hlt, ?_⟩
    rw [Array.getElem?_toList]
    exact hc

/-- A histogram lists the positions that are observed. -/
theorem mem_values : k ∈ h.values ↔ ∃ c, h.slots[k]? = some c ∧ c ≠ unseen := by
  rw [values, List.mem_map]
  constructor
  · rintro ⟨⟨_, c⟩, hmem, rfl⟩
    exact ⟨c, mem_entries.mp hmem⟩
  · rintro ⟨c, hc⟩
    exact ⟨(k, c), mem_entries.mpr hc, rfl⟩

/-- Every slot is unobserved or holds a count that is not negative. -/
def Countable (h : DenseHistogram) : Prop := ∀ c ∈ h.slots, c = unseen ∨ 0 ≤ c

/-- Nothing was observed in an empty histogram. -/
theorem countable_empty (size : Nat) : (empty size).Countable := by
  intro c hc
  simp only [empty, Array.mem_replicate] at hc
  exact .inl hc.2

/-- Counting a position fewer than `2 ^ 63` times puts a count into its slot that is not
negative, and touches no other slot. -/
theorem add?_ok (hcount : h.Countable) (hn : n < wordLimit / 2) (hok : h.add? k n = .ok h') :
    ∃ c, 0 ≤ c ∧ k < h.slots.size ∧ h'.slots = h.slots.setIfInBounds k c := by
  have hword : ofWord n = n := by rw [ofWord, if_pos hn]
  unfold add? at hok
  split at hok
  · cases hok
  -- The position is there. Its slot becomes what was added, or that much more.
  · next c hc =>
    obtain ⟨hlt, hmem⟩ := Array.getElem?_eq_some_iff.mp hc
    have hslot := hcount c (hmem ▸ Array.getElem_mem hlt)
    rw [hword] at hok
    refine ⟨if c = unseen then (n : Int) else c + n, ?_, hlt, ?_⟩
    · split
      · omega
      · next hseen =>
        have := hslot.resolve_left hseen
        omega
    · simp only at hok
      generalize (if c = unseen then h.observed + 1 else h.observed) = observed at hok
      generalize (if c = unseen then (n : Int) else c + n) = next at hok ⊢
      split at hok
      · cases hok; rfl
      · cases hok

/-- So adding keeps all slots unobserved or not negative. -/
theorem Countable.add? (hcount : h.Countable) (hn : n < wordLimit / 2)
    (hok : h.add? k n = .ok h') : h'.Countable := by
  obtain ⟨c, hc, _, hslots⟩ := add?_ok hcount hn hok
  intro e he
  rw [hslots] at he
  rcases Array.mem_or_eq_of_mem_setIfInBounds he with hold | rfl
  · exact hcount e hold
  · exact .inr hc

/-- A position that is counted is listed. -/
theorem mem_values_add? (hcount : h.Countable) (hn : n < wordLimit / 2)
    (hok : h.add? k n = .ok h') : k ∈ h'.values := by
  obtain ⟨c, hc, hlt, hslots⟩ := add?_ok hcount hn hok
  refine mem_values.mpr ⟨c, ?_, ?_⟩
  · rw [hslots, Array.getElem?_setIfInBounds_self_of_lt hlt]
  · rw [unseen]
    omega

/-- Counting leaves listed positions listed. -/
theorem values_subset_add? (hcount : h.Countable) (hn : n < wordLimit / 2)
    (hok : h.add? k n = .ok h') : ∀ j ∈ h.values, j ∈ h'.values := by
  intro j hj
  by_cases hkey : k = j
  · exact hkey ▸ mem_values_add? hcount hn hok
  · obtain ⟨c, _, _, hslots⟩ := add?_ok hcount hn hok
    obtain ⟨e, he, hseen⟩ := mem_values.mp hj
    refine mem_values.mpr ⟨e, ?_, hseen⟩
    rw [hslots, Array.getElem?_setIfInBounds_ne hkey]
    exact he

/-! ### Counts -/

/-- What was counted at a position is read off its slot. -/
theorem getD_eq (h : DenseHistogram) (k : Nat) :
    h.getD k 0 = ((h.slots[k]?.filter (· ≠ unseen)).map toWord).getD 0 := rfl

/-- In an empty histogram that is zero. -/
theorem getD_empty (size : Nat) (k : Nat) : (empty size).getD k 0 = 0 := by
  rw [getD_eq, empty, Array.getElem?_replicate]
  split <;> rfl

/-- Counting a position once makes its count one greater, and leaves the others. A slot that was
never used reads as zero; once it is used it holds the count itself. -/
theorem getD_add? (hcount : h.Countable) (hok : h.add? k 1 = .ok h') (j : Nat) :
    h'.getD j 0 = h.getD j 0 + if j = k then 1 else 0 := by
  unfold add? at hok
  split at hok
  · cases hok
  · next c hc =>
    obtain ⟨hlt, hmem⟩ := Array.getElem?_eq_some_iff.mp hc
    have hslot := hcount c (hmem ▸ Array.getElem_mem hlt)
    have hnext : (if c = unseen then ofWord 1 else c + ofWord 1)
        = if c = unseen then (1 : Int) else c + 1 := rfl
    dsimp only at hok
    rw [hnext] at hok
    generalize (if c = unseen then h.observed + 1 else h.observed) = observed at hok
    generalize hslot' : (if c = unseen then (1 : Int) else c + 1) = next at hok
    split at hok
    · cases hok
      -- The position counted is one more than before; the others keep their slots.
      by_cases hjk : j = k
      · subst hjk
        rw [getD_eq, getD_eq, Array.getElem?_setIfInBounds_self_of_lt hlt, hc, if_pos rfl]
        by_cases hseen : c = unseen
        · rw [if_pos hseen] at hslot'
          subst hseen hslot'
          rfl
        · rw [if_neg hseen] at hslot'
          subst hslot'
          have hpos := hslot.resolve_left hseen
          have hnew : c + 1 ≠ unseen := by rw [unseen]; omega
          have hword : ∀ i : Int, 0 ≤ i → toWord i = i.toNat := fun i hi => if_neg (by omega)
          simp only [Option.filter_some, hseen, hnew, ne_eq, not_false_eq_true, decide_true, if_true,
            Option.map_some, Option.getD_some, hword c hpos, hword (c + 1) (by omega)]
          omega
      · rw [getD_eq, getD_eq, Array.getElem?_setIfInBounds_ne (Ne.symm hjk), if_neg hjk,
          Nat.add_zero]
    · cases hok

/-- Counting positions one after another makes the count of each greater by the times that it was
counted. -/
theorem getD_foldlM_add? {ks : List Nat} (hcount : h.Countable)
    (hok : ks.foldlM (fun h k => h.add? k 1) h = .ok h') :
    h'.Countable ∧ ∀ j, h'.getD j 0 = h.getD j 0 + ks.count j := by
  induction ks generalizing h with
  | nil =>
    cases hok
    exact ⟨hcount, fun j => rfl⟩
  | cons k ks ih =>
    obtain ⟨m, hm, hrest⟩ := Outcome.foldlM_cons_ok hok
    obtain ⟨hlast, hcounts⟩ := ih (hcount.add? (by decide) hm) hrest
    refine ⟨hlast, fun j => ?_⟩
    rw [hcounts j, getD_add? hcount hm j, List.count_cons, Nat.add_assoc, Nat.add_comm (List.count ..)]
    simp only [beq_iff_eq, eq_comm (a := j)]

end TxnPath.DenseHistogram
