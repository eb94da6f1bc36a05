import Mathlib.Data.List.Basic
import Mathlib.Data.List.Nodup
import TxnPath.Proofs.Histogram.Dense

/-!
# `TxnPath.Proofs.Histogram.Rounds`: counting in rounds

A walk and a transaction count the partitions that they touch in rounds: one round per call,
and each partition of the call once. `Rounds` bounds what has been counted by the number of
rounds, so that counters stay in their range as long as the rounds times the positions are a word
(`Rounds.count`). What can still go wrong is a position that does not exist
(`foldlM_add?_error`).
-/

set_option autoImplicit false

namespace TxnPath.DenseHistogram

variable {h r : DenseHistogram} {n rounds : Nat} {left : List Nat}

/-- A histogram of `n` positions that was filled in rounds, each of which counts a position once at
most. The last round still has the positions in `left` to count. -/
structure Rounds (h : DenseHistogram) (n rounds : Nat) (left : List Nat) : Prop where
  size : h.slots.size = n
  slot : ∀ (k : Nat) (c : Int), h.slots[k]? = some c →
    c = unseen ∨ 0 ≤ c ∧ c + (if k ∈ left then 1 else 0) ≤ rounds
  samples : h.samples + left.length ≤ rounds * n
  observed : h.observed ≤ h.samples

/-- Before the first round nothing is counted. -/
theorem rounds_empty (n : Nat) : (empty n).Rounds n 0 [] where
  size := Array.size_replicate
  slot := fun k c hc => by
    rw [empty, Array.getElem?_replicate] at hc
    split at hc
    · exact .inl (Option.some.inj hc).symm
    · cases hc
  samples := Nat.zero_le _
  observed := Nat.le_refl _

/-- When a round is over, the next one may count any positions, each of them once. The bound on the
counts rises by one, and that on the total by the size of the domain. -/
theorem Rounds.next {l : List Nat} (hdone : h.Rounds n rounds []) (hnodup : l.Nodup)
    (hl : ∀ k ∈ l, k < n) : h.Rounds n (rounds + 1) l where
  size := hdone.size
  slot := fun k c hc => by
    refine (hdone.slot k c hc).imp_right fun hcount => ⟨hcount.1, ?_⟩
    have := hcount.2
    simp only [List.not_mem_nil, if_false] at this
    split <;> omega
  samples := by
    have hsub : l ⊆ List.range n := fun k hk => List.mem_range.mpr (hl k hk)
    have hlen := hnodup.length_le_of_subset hsub
    have hold := hdone.samples
    rw [List.length_range] at hlen
    rw [List.length_nil] at hold
    rw [Nat.add_mul, Nat.one_mul]
    omega
  observed := hdone.observed

/-- Counting one of the positions that are left keeps all counters in their range. -/
theorem Rounds.add? {k : Nat} (hrounds : rounds < wordLimit / 2) (hword : rounds * n < wordLimit)
    (hround : h.Rounds n rounds (k :: left)) (hnew : k ∉ left) (hk : k < n) :
    ∃ r, h.add? k 1 = .ok r ∧ r.Rounds n rounds left := by
  obtain ⟨c, hc⟩ : ∃ c, h.slots[k]? = some c :=
    ⟨_, Array.getElem?_eq_getElem (hround.size ▸ hk)⟩
  have hsamples := hround.samples
  have hobserved := hround.observed
  have hword1 : ofWord 1 = 1 := rfl
  rw [List.length_cons] at hsamples
  have hpos : 0 < rounds := by
    by_contra hzero
    rw [Nat.eq_zero_of_not_pos hzero, Nat.zero_mul] at hsamples
    omega
  -- The slot of the position gets a count that is at most the number of rounds.
  have hslot : 0 ≤ (if c = unseen then (1 : Int) else c + 1)
      ∧ (if c = unseen then (1 : Int) else c + 1) ≤ rounds := by
    have hcount := hround.slot k c hc
    rw [if_pos List.mem_cons_self] at hcount
    split
    · omega
    · next hseen =>
      have := hcount.resolve_left hseen
      omega
  have hfits : fits (if c = unseen then (1 : Int) else c + 1) = true := by
    simp only [fits, Bool.and_eq_true, decide_eq_true_eq]
    rw [wordLimit] at hrounds
    simp only [wordLimit]
    omega
  have hadd : h.add? k 1 = .ok ⟨h.slots.setIfInBounds k (if c = unseen then 1 else c + 1),
      if c = unseen then h.observed + 1 else h.observed, h.samples + 1⟩ := by
    rw [DenseHistogram.add?, hc]
    dsimp only
    rw [hword1, if_pos]
    refine ⟨hfits, ?_, by omega⟩
    split <;> omega
  refine ⟨_, hadd, ?_, fun j d hd => ?_, ?_, ?_⟩
  · rw [Array.size_setIfInBounds, hround.size]
  · rw [Array.getElem?_setIfInBounds] at hd
    by_cases hkj : k = j
    · subst hkj
      rw [if_pos rfl, if_pos (hround.size ▸ hk)] at hd
      rw [← Option.some.inj hd, if_neg hnew]
      omega
    · rw [if_neg hkj] at hd
      refine (hround.slot j d hd).imp_right fun hcount => ⟨hcount.1, ?_⟩
      have := hcount.2
      simpa [List.mem_cons, Ne.symm hkj] using this
  · show h.samples + 1 + left.length ≤ rounds * n
    omega
  · show (if c = unseen then h.observed + 1 else h.observed) ≤ h.samples + 1
    split <;> omega

/-- A round that counts existing positions, each of them once, ends with all counters in their
range. -/
theorem Rounds.count {l : List Nat} (hrounds : rounds < wordLimit / 2)
    (hword : rounds * n < wordLimit) (hround : h.Rounds n rounds l) (hnodup : l.Nodup)
    (hl : ∀ k ∈ l, k < n) :
    ∃ r, l.foldlM (fun h k => h.add? k 1) h = .ok r ∧ r.Rounds n rounds [] := by
  induction l generalizing h with
  | nil => exact ⟨h, rfl, hround⟩
  | cons k l ih =>
    obtain ⟨hnew, hnodup⟩ := List.nodup_cons.mp hnodup
    obtain ⟨hk, hl⟩ := List.forall_mem_cons.mp hl
    obtain ⟨h₁, hadd, hrest⟩ := hround.add? hrounds hword hnew hk
    obtain ⟨r, hcount, hdone⟩ := ih hrest hnodup hl
    refine ⟨r, ?_, hdone⟩
    rw [List.foldlM_cons, hadd]
    exact hcount

/-- Counting keeps the number of positions. -/
theorem size_add? {k : Nat} (hadd : h.add? k 1 = .ok r) : r.slots.size = h.slots.size := by
  rw [DenseHistogram.add?] at hadd
  split at hadd
  · cases hadd
  · dsimp only at hadd
    generalize (if _ = unseen then ofWord 1 else _) = next at hadd
    generalize (if _ = unseen then h.observed + 1 else h.observed) = observed at hadd
    split at hadd
    · cases hadd
      exact Array.size_setIfInBounds
    · cases hadd

/-- A round that is to count a position that does not exist fails. It may fail earlier, but it does
not get past this position. -/
theorem foldlM_add?_error {l : List Nat} (hout : ∃ k ∈ l, h.slots.size ≤ k) :
    ∃ f, l.foldlM (fun h k => h.add? k 1) h = .error f := by
  induction l generalizing h with
  | nil =>
    obtain ⟨k, hk, _⟩ := hout
    cases hk
  | cons k l ih =>
    rw [List.foldlM_cons]
    cases hadd : h.add? k 1 with
    | error f => exact ⟨f, rfl⟩
    | ok h₁ =>
      obtain ⟨j, hj, hsize⟩ := hout
      rcases List.mem_cons.mp hj with rfl | hj
      · rw [add?, Array.getElem?_eq_none hsize] at hadd
        cases hadd
      · exact ih ⟨j, hj, (size_add? hadd).symm ▸ hsize⟩

end TxnPath.DenseHistogram
