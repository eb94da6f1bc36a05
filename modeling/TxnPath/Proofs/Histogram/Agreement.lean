import Mathlib.Algebra.Order.BigOperators.Group.List
import Mathlib.Algebra.Order.Ring.Nat
import Mathlib.Data.List.Perm.Basic
import TxnPath.Histogram.Basic
import TxnPath.Proofs.Histogram.Extremes

/-!
# `TxnPath.Proofs.Histogram.Agreement`: two histograms that cannot be told apart

A histogram over a fixed domain keeps an array of signed counts, with `-1` for what is not observed,
and beside it how many positions are observed. A histogram over any keys keeps a map. `Agrees` says
that both hold the same counts and that the array is in order: no slot is negative but for `-1`, and
the numbers beside the array are those of the array. `Agrees.set` shows this for one slot that
changes, `Agrees.act` for one act, and `agrees_of_run` for any number of acts. As the lists of both
are in order, they are the same (`Agrees.toList_eq`), and all queries are answered from these lists
(`Agrees.interchangeable`).

The largest count a slot can hold is that of a signed word. As the sum of all that was counted stays
below it, so does every count, and no counter overflows.
-/

set_option autoImplicit false

namespace TxnPath

open Std (ExtTreeMap)

/-- What is done with a histogram. To count a key once is to count it `1` more time. -/
inductive HistogramAct where
  | put (k n : Nat)
  | remove (k n : Nat)
  | clear
  | clearValues
  | grow (size : Nat)

namespace HistogramAct

/-- How many samples an act counts. -/
def puts : HistogramAct → Nat
  | .put _ n => n
  | _ => 0

/-- The size of the domain after an act. -/
def resized (size : Nat) : HistogramAct → Nat
  | .grow size' => max size size'
  | _ => size

/-- Only keys of the domain are counted. -/
def Within (size : Nat) : HistogramAct → Prop
  | .put k _ => k < size
  | _ => True

/-- Only keys of the domain are counted, however it grows, and its size is a word. -/
def Fit (size : Nat) : List HistogramAct → Prop
  | [] => size < wordLimit
  | act :: acts => act.Within size ∧ Fit (act.resized size) acts

/-- An act may make the domain larger, and never makes it smaller. -/
theorem le_resized (size : Nat) (act : HistogramAct) : size ≤ act.resized size := by
  cases act with
  | grow size' => exact Nat.le_max_left ..
  | _ => exact Nat.le_refl _

/-- Acts that fit ask for a domain that is a word at most. -/
theorem Fit.lt {size : Nat} {acts : List HistogramAct} (h : Fit size acts) : size < wordLimit := by
  induction acts generalizing size with
  | nil => exact h
  | cons act acts ih => exact (le_resized size act).trans_lt (ih h.2)

end HistogramAct

namespace DenseHistogram

/-- One act on a histogram over a fixed domain. -/
def act (d : DenseHistogram) : HistogramAct → Except Fault DenseHistogram
  | .put k n => d.add? k n
  | .remove k n => d.remove? k n
  | .clear => .ok d.clear
  | .clearValues => .ok d.clearValues
  | .grow size => .ok (d.grow size)

/-- Acts one after another. -/
def run (d : DenseHistogram) (acts : List HistogramAct) : Except Fault DenseHistogram :=
  acts.foldlM act d

variable {d : DenseHistogram} {k n : Nat} {c : Int}

/-- The bits of a count that is not negative read as the count. -/
theorem toWord_of_nonneg (h : 0 ≤ c) : toWord c = c.toNat := if_neg (by omega)

/-- And a count below `2 ^ 63` is stored as itself. -/
theorem ofWord_of_lt (h : n < wordLimit / 2) : ofWord n = n := if_pos h

/-- Such a count fits its slot. -/
theorem fits_of_lt (hc : 0 ≤ c) (hlt : c.toNat < wordLimit / 2) : fits c = true := by
  have hword : (wordLimit : Int) = 18446744073709551616 := rfl
  simp only [fits, hword, Bool.and_eq_true, decide_eq_true_eq]
  rw [wordLimit] at hlt
  omega

/-- Positions are paired with all slots. -/
theorem map_snd_zip (d : DenseHistogram) :
    ((List.range d.size).zip d.slots.toList).map Prod.snd = d.slots.toList :=
  List.map_snd_zip (by simp [size])

/-- What is answered for a position: nothing if its slot says that it was not observed, and else the
count. -/
theorem get?_of_slot (hc : d.slots[k]? = some c) :
    d.get? k = if c = unseen then none else some (toWord c) := by
  rw [get?, hc, Option.filter_some]
  by_cases hseen : c = unseen
  · simp [hseen]
  · simp [hseen]

/-- Nothing is answered for a position outside the domain. -/
theorem get?_of_outside (hk : d.slots[k]? = none) : d.get? k = none := by
  rw [get?, hk]
  rfl

/-- A position is listed with the count that is answered for it. The list leaves out the slots that
were never used, for which no count is answered either. -/
theorem mem_toList : (k, n) ∈ d.toList ↔ d.get? k = some n := by
  rw [toList, List.mem_map]
  constructor
  · rintro ⟨⟨k', c⟩, hmem, heq⟩
    cases heq
    obtain ⟨hc, hseen⟩ := mem_entries.mp hmem
    rw [get?_of_slot hc, if_neg hseen]
  · intro hget
    -- A position has a slot with a count if an answer is given for it.
    cases hc : d.slots[k]? with
    | none =>
      rw [get?_of_outside hc] at hget
      cases hget
    | some c =>
      rw [get?_of_slot hc] at hget
      split at hget
      case isTrue => cases hget
      case isFalse hseen =>
        cases hget
        exact ⟨(k, c), mem_entries.mpr ⟨hc, hseen⟩, rfl⟩

/-- Positions are listed in ascending order, as the scan comes to them. -/
theorem pairwise_toList (d : DenseHistogram) : d.toList.Pairwise fun e e' => e.1 < e'.1 :=
  List.pairwise_map.mpr d.pairwise_entries

/-- Writing a slot changes the answer for its own position and for no other. -/
theorem get?_set (hk : k < d.slots.size) (observed samples j : Nat) :
    get? ⟨d.slots.setIfInBounds k c, observed, samples⟩ j
      = if j = k then (if c = unseen then none else some (toWord c)) else d.get? j := by
  by_cases hjk : j = k
  · rw [hjk, if_pos rfl, get?_of_slot (Array.getElem?_setIfInBounds_self_of_lt hk)]
  · rw [if_neg hjk, get?, get?, Array.getElem?_setIfInBounds_ne (Ne.symm hjk)]

/-- No position is counted that is new to the domain. -/
theorem get?_grow (d : DenseHistogram) (size k : Nat) : (d.grow size).get? k = d.get? k := by
  by_cases hk : k < d.slots.size
  · rw [get?, get?, grow, Array.getElem?_append_left hk]
  · have hnew : d.slots[k]? = none := Array.getElem?_eq_none (Nat.le_of_not_lt hk)
    rw [get?_of_outside hnew, get?, grow, Array.getElem?_append_right (Nat.le_of_not_lt hk),
      Array.getElem?_replicate]
    split <;> rfl

/-- Growing never makes the domain smaller. -/
theorem size_grow (d : DenseHistogram) (size : Nat) : (d.grow size).size = max d.size size := by
  simp only [grow, DenseHistogram.size, Array.size_append, Array.size_replicate]
  omega

/-- The counts that are listed are not negative. -/
theorem nonneg_of_mem_entries (h : d.Countable) {e : Nat × Int} (he : e ∈ d.entries) :
    0 ≤ e.2 := by
  obtain ⟨hc, hseen⟩ := mem_entries.mp he
  obtain ⟨hlt, hslot⟩ := Array.getElem?_eq_some_iff.mp hc
  exact (h e.2 (hslot ▸ Array.getElem_mem hlt)).resolve_left hseen

end DenseHistogram

namespace Histogram

/-- One act on a histogram over any keys, which has no size. -/
def act (h : Histogram Nat) : HistogramAct → Except Fault (Histogram Nat)
  | .put k n => h.add? k n
  | .remove k n => h.remove? k n
  | .clear => .ok h.clear
  | .clearValues => .ok h.clearValues
  | .grow _ => .ok h

/-- Acts one after another. -/
def run (h : Histogram Nat) (acts : List HistogramAct) : Except Fault (Histogram Nat) :=
  acts.foldlM act h

variable {h : Histogram Nat} {k n : Nat}

/-- In the map, too, a key is listed with the count that is answered for it. -/
theorem mem_toList : (k, n) ∈ h.toList ↔ h.get? k = some n :=
  ExtTreeMap.mem_toList_iff_getElem?_eq_some

/-- The map lists its keys in ascending order. -/
theorem pairwise_toList (h : Histogram Nat) : h.toList.Pairwise fun e e' => e.1 < e'.1 :=
  ExtTreeMap.ordered_keys_toList.imp Nat.compare_eq_lt.mp

/-- An erased key has no count any more. -/
theorem get?_erase (h : Histogram Nat) (k samples j : Nat) :
    get? ⟨h.counts.erase k, samples⟩ j = if j = k then none else h.get? j := by
  simp only [get?, ExtTreeMap.getElem?_erase, Nat.compare_eq_eq, @eq_comm _ k j]

/-- A key that is inserted has its new count. -/
theorem get?_insert (h : Histogram Nat) (k c samples j : Nat) :
    get? ⟨h.counts.insert k c, samples⟩ j = if j = k then some c else h.get? j := by
  simp only [get?, ExtTreeMap.getElem?_insert, Nat.compare_eq_eq, @eq_comm _ k j]

/-- Clearing keeps the keys and sets their counts to zero. -/
theorem get?_clear (h : Histogram Nat) (j : Nat) : h.clear.get? j = (h.get? j).map fun _ => 0 := by
  simp [get?, clear]

end Histogram

/-- Both histograms hold the same counts. The numbers beside the array are those of the array, and
its slots are not negative where they hold a count. -/
structure Agrees (d : DenseHistogram) (h : Histogram Nat) : Prop where
  countable : d.Countable
  get : ∀ k, d.get? k = h.get? k
  observed : d.observed = d.slots.toList.countP fun c => c ≠ DenseHistogram.unseen
  samples : d.samples = (d.slots.toList.map Int.toNat).sum
  same : h.samples = d.samples

/-- No query tells one histogram from the other. It lists all that can be asked, also what is asked
of the counts as a whole. -/
structure Interchangeable (d : DenseHistogram) (h : Histogram Nat) : Prop where
  get : ∀ k, d.get? k = h.get? k
  getD : ∀ k default, d.getD k default = h.getD k default
  contains : ∀ k, d.contains k = h.contains k
  values : d.values = h.values
  valueCount : d.valueCount = h.valueCount
  isEmpty : d.isEmpty = h.isEmpty
  samples : d.samples = h.samples
  minValue : d.minValue? = h.minValue?
  maxValue : d.maxValue? = h.maxValue?
  minCount : d.minCount? = h.minCount?
  maxCount : d.maxCount? = h.maxCount?
  minCountValues : d.minCountValues = h.minCountValues
  maxCountValues : d.maxCountValues = h.maxCountValues

open DenseHistogram (unseen)

/-- Replacing one element of a list changes a sum over it by the difference. Both sides are written
as sums, since the difference may be negative. -/
theorem sum_map_set {l : List Int} {k : Nat} (hk : k < l.length) (f : Int → Nat) (x : Int) :
    ((l.set k x).map f).sum + f l[k] = (l.map f).sum + f x := by
  have hold := ((List.getElem_cons_eraseIdx_perm hk).map f).sum_eq
  have hnew := ((List.set_perm_cons_eraseIdx hk x).map f).sum_eq
  simp only [List.map_cons, List.sum_cons] at hold hnew
  omega

/-- What adds nothing to a sum can be left out. -/
theorem sum_map_filter {α : Type} {l : List α} {p : α → Bool} {f : α → Nat}
    (hzero : ∀ a, p a = false → f a = 0) : ((l.filter p).map f).sum = (l.map f).sum := by
  induction l with
  | nil => rfl
  | cons a l ih =>
    cases hp : p a with
    | true => rw [List.filter_cons_of_pos hp, List.map_cons, List.sum_cons, ih, List.map_cons,
        List.sum_cons]
    | false => rw [List.filter_cons_of_neg (by simp [hp]), ih, List.map_cons, List.sum_cons,
        hzero a hp, Nat.zero_add]

namespace Agrees

variable {d d' : DenseHistogram} {h h' : Histogram Nat} {k n : Nat} {c x : Int}

/-- In the beginning neither has counted anything. The one has a slot for every position that says
so, and the other has no entry. -/
theorem empty (size : Nat) : Agrees (.empty size) .empty where
  countable := DenseHistogram.countable_empty size
  get k := by
    have hempty : (Histogram.empty : Histogram Nat).get? k = none := ExtTreeMap.getElem?_empty
    cases hc : (DenseHistogram.empty size).slots[k]? with
    | none => rw [DenseHistogram.get?_of_outside hc, hempty]
    | some c =>
      rw [DenseHistogram.empty, Array.getElem?_replicate] at hc
      split at hc
      case isTrue hlt =>
        have hslot : (DenseHistogram.empty size).slots[k]? = some unseen := by
          rw [DenseHistogram.empty, Array.getElem?_replicate, if_pos hlt]
        rw [DenseHistogram.get?_of_slot hslot, if_pos rfl, hempty]
      case isFalse => cases hc
  observed := by simp [DenseHistogram.empty, List.countP_replicate]
  samples := by simp [DenseHistogram.empty, unseen]
  same := rfl

/-- A slot that says that its position was observed holds a count. -/
theorem nonneg (hag : Agrees d h) (hc : d.slots[k]? = some c) (hseen : c ≠ unseen) : 0 ≤ c := by
  obtain ⟨hlt, hslot⟩ := Array.getElem?_eq_some_iff.mp hc
  exact (hag.countable c (hslot ▸ Array.getElem_mem hlt)).resolve_left hseen

/-- No count is larger than their sum. -/
theorem toNat_le (hag : Agrees d h) (hc : d.slots[k]? = some c) : c.toNat ≤ d.samples := by
  obtain ⟨hlt, hslot⟩ := Array.getElem?_eq_some_iff.mp hc
  rw [hag.samples]
  refine List.le_sum_of_mem (List.mem_map_of_mem ?_)
  rw [← hslot]
  exact Array.mem_toList_iff.mpr (Array.getElem_mem hlt)

/-- No more positions are observed than there are. -/
theorem observed_le (hag : Agrees d h) : d.observed ≤ d.size := by
  rw [hag.observed, DenseHistogram.size, ← Array.length_toList]
  exact List.countP_le_length

/-- A position that is observed is among those that are counted. -/
theorem observed_pos (hag : Agrees d h) (hc : d.slots[k]? = some c) (hseen : c ≠ unseen) :
    0 < d.observed := by
  obtain ⟨hlt, rfl⟩ := Array.getElem?_eq_some_iff.mp hc
  rw [hag.observed]
  exact List.countP_pos_iff.mpr
    ⟨_, Array.mem_toList_iff.mpr (Array.getElem_mem hlt), decide_eq_true hseen⟩

/-- One slot changes, and with it the count of its position in the map. Both totals have to follow:
how many positions are observed, and how many samples there are. -/
theorem set (hag : Agrees d h) (hc : d.slots[k]? = some c) (hx : x = unseen ∨ 0 ≤ x)
    (hget : ∀ j, h'.get? j = if j = k then (if x = unseen then none else some x.toNat) else h.get? j)
    {observed samples : Nat} (hsame : h'.samples = samples)
    (hsamples : samples + c.toNat = d.samples + x.toNat)
    (hobserved : observed + (if c = unseen then 0 else 1)
      = d.observed + if x = unseen then 0 else 1) :
    Agrees ⟨d.slots.setIfInBounds k x, observed, samples⟩ h' := by
  obtain ⟨hlt, rfl⟩ := Array.getElem?_eq_some_iff.mp hc
  have hlist : k < d.slots.toList.length := hlt
  refine ⟨fun e he => ?_, fun j => ?_, ?_, ?_, hsame⟩
  -- Every slot is in order: the others were, and the new one is.
  · rcases Array.mem_or_eq_of_mem_setIfInBounds he with hold | rfl
    · exact hag.countable e hold
    · exact hx
  · rw [hget, DenseHistogram.get?_set hlt, hag.get]
    split
    case isTrue =>
      split
      case isTrue => rfl
      case isFalse hseen => rw [DenseHistogram.toWord_of_nonneg (hx.resolve_left hseen)]
    case isFalse => rfl
  -- The number of observed positions goes along with the slot that changes.
  · have hcount := List.countP_set (p := fun c => c ≠ unseen) (a := x) hlist
    have hseen : d.slots[k] ≠ unseen → 0 < d.observed := hag.observed_pos hc
    dsimp only
    rw [Array.toList_setIfInBounds, hcount, ← hag.observed, Array.getElem_toList]
    by_cases hold : d.slots[k] = unseen
    · by_cases hnew : x = unseen <;> simp_all
    · have := hseen hold
      by_cases hnew : x = unseen
      · simp only [hold, hnew, ne_eq, not_false_eq_true, not_true_eq_false, decide_true,
          decide_false, if_true, if_false, Bool.false_eq_true] at hobserved ⊢
        omega
      · simp only [hold, hnew, ne_eq, not_false_eq_true, decide_true, if_true, if_false]
          at hobserved ⊢
        omega
  -- And so does the number of samples.
  · have hsum := sum_map_set hlist Int.toNat x
    have hold := hag.samples
    dsimp only
    rw [Array.toList_setIfInBounds]
    simp only [Array.getElem_toList] at hsum
    omega

/-- What the map holds for a position with a slot. -/
theorem get?_eq (hag : Agrees d h) (hc : d.slots[k]? = some c) :
    h.get? k = if c = unseen then none else some c.toNat := by
  rw [← hag.get, DenseHistogram.get?_of_slot hc]
  split
  case isTrue => rfl
  case isFalse hseen => rw [DenseHistogram.toWord_of_nonneg (hag.nonneg hc hseen)]

/-- What was counted at a position, with zero for nothing. -/
theorem getD_eq (hag : Agrees d h) (hc : d.slots[k]? = some c) : h.getD k 0 = c.toNat := by
  rw [Histogram.getD, hag.get?_eq hc]
  split
  case isTrue hseen => rw [hseen]; rfl
  case isFalse => rfl

/-- Adding to a position inside the domain succeeds on both sides, as long as what was counted in
all stays below `2 ^ 63`. -/
theorem put (hag : Agrees d h) (hk : k < d.size) (hsize : d.size < wordLimit)
    (htotal : d.samples + n < wordLimit / 2) :
    ∃ d' h', d.add? k n = .ok d' ∧ h.add? k n = .ok h' ∧ Agrees d' h' ∧ d'.size = d.size
      ∧ d'.samples = d.samples + n := by
  obtain ⟨c, hc⟩ : ∃ c, d.slots[k]? = some c := ⟨_, Array.getElem?_eq_getElem hk⟩
  have hle := hag.toNat_le hc
  have hseen := hag.nonneg hc
  -- The new slot, which for a position that is not observed starts at nothing.
  obtain ⟨x, hx⟩ : ∃ x, x = if c = unseen then (n : Int) else c + n := ⟨_, rfl⟩
  have hnonneg : 0 ≤ x := by
    split at hx
    · omega
    · next hnew => have := hseen hnew; omega
  have hnat : x.toNat = c.toNat + n := by
    split at hx
    · next hold => rw [hold, unseen]; omega
    · next hnew => have := hseen hnew; omega
  have hcount : x ≠ unseen := by rw [unseen]; omega
  have hnew : Agrees ⟨d.slots.setIfInBounds k x,
      if c = unseen then d.observed + 1 else d.observed, d.samples + n⟩ (h.add k n) := by
    refine hag.set hc (.inr hnonneg) (fun j => ?_) ?_ ?_ ?_
    · rw [Histogram.add, Histogram.get?_insert, hag.getD_eq hc, if_neg hcount, hnat]
    · rw [Histogram.add, hag.same]
    · rw [hnat]; omega
    · rw [if_neg hcount]
      split <;> rfl
  have hobserved := hnew.observed_le
  rw [DenseHistogram.size, Array.size_setIfInBounds] at hobserved
  refine ⟨_, _, ?_, ?_, hnew, Array.size_setIfInBounds, rfl⟩
  · rw [DenseHistogram.add?, hc]
    dsimp only
    rw [DenseHistogram.ofWord_of_lt (by omega), ← hx,
      if_pos ⟨DenseHistogram.fits_of_lt hnonneg (by omega), hobserved.trans_lt hsize, by omega⟩]
  · rw [Histogram.add?, hag.getD_eq hc, hag.same, if_pos (by omega)]

/-- What both histograms do with an observed position. The one keeps counts as signed numbers that
may wrap around, and it is for the total to be small enough that this never shows. -/
theorem remove_eq (hag : Agrees d h) (hc : d.slots[k]? = some c) (hseen : c ≠ unseen)
    (htotal : d.samples < wordLimit / 2) {removed : Nat} (hremoved : min n c.toNat = removed) :
    (d.remove? k n
      = if c - removed ≠ 0 then
          .ok ⟨d.slots.setIfInBounds k (c - removed), d.observed, d.samples - removed⟩
        else if d.observed = 0 then .error .overflow
        else .ok ⟨d.slots.setIfInBounds k unseen, d.observed - 1, d.samples - removed⟩)
      ∧ h.remove? k n
        = if c.toNat = removed then .ok ⟨h.counts.erase k, h.samples - removed⟩
          else .ok ⟨h.counts.insert k (c.toNat - removed), h.samples - removed⟩ := by
  have hle := hag.toNat_le hc
  have hnonneg := hag.nonneg hc hseen
  -- Counts are small enough for words to be read as they were written.
  have hword : DenseHistogram.ofWord removed = removed := DenseHistogram.ofWord_of_lt (by omega)
  have hfits : DenseHistogram.fits (c - removed) = true :=
    DenseHistogram.fits_of_lt (by omega) (by omega)
  constructor
  · rw [DenseHistogram.remove?, hc]
    dsimp only
    rw [if_neg hseen, DenseHistogram.toWord_of_nonneg hnonneg, hremoved, hword,
      if_neg (not_or.mpr ⟨not_not.mpr hfits, by omega⟩)]
  · rw [Histogram.remove?, hag.get?_eq hc, if_neg hseen]
    dsimp only
    rw [hremoved, if_neg (by rw [hag.same]; omega)]

/-- A position whose last count is taken back is no longer observed. The bound on samples is where
slots end, since counts are words that are read with a sign. -/
theorem remove (hag : Agrees d h) (htotal : d.samples < wordLimit / 2) (k n : Nat) :
    ∃ d' h', d.remove? k n = .ok d' ∧ h.remove? k n = .ok h' ∧ Agrees d' h' ∧ d'.size = d.size
      ∧ d'.samples ≤ d.samples := by
  have hsame : h.get? k = none → (d.remove? k n = .ok d) →
      ∃ d' h', d.remove? k n = .ok d' ∧ h.remove? k n = .ok h' ∧ Agrees d' h'
        ∧ d'.size = d.size ∧ d'.samples ≤ d.samples := fun hget hdense =>
    ⟨d, h, hdense, by rw [Histogram.remove?, hget], hag, rfl, Nat.le_refl _⟩
  cases hc : d.slots[k]? with
  | none =>
    refine hsame ?_ ?_
    · rw [← hag.get, DenseHistogram.get?_of_outside hc]
    · rw [DenseHistogram.remove?, hc]
  | some c =>
    by_cases hseen : c = unseen
    · refine hsame ?_ ?_
      · rw [hag.get?_eq hc, if_pos hseen]
      · rw [DenseHistogram.remove?, hc]
        dsimp only
        rw [if_pos hseen]
    · have hle := hag.toNat_le hc
      have hnonneg := hag.nonneg hc hseen
      obtain ⟨removed, hremoved⟩ : ∃ removed, min n c.toNat = removed := ⟨_, rfl⟩
      obtain ⟨hdense, hmap⟩ := hag.remove_eq hc hseen htotal hremoved
      rw [hdense, hmap]
      -- No more is taken away than there is; if nothing is left, the position is not observed any
      -- more.
      by_cases hlast : c - removed = 0
      · have hpos := hag.observed_pos hc hseen
        rw [if_neg (not_not.mpr hlast), if_neg hpos.ne', if_pos (by omega)]
        refine ⟨_, _, rfl, rfl, hag.set hc (.inl rfl) (fun j => ?_) ?_ ?_ ?_,
          Array.size_setIfInBounds, Nat.sub_le ..⟩
        · rw [Histogram.get?_erase, if_pos rfl]
        · rw [hag.same]
        · have : unseen.toNat = 0 := rfl
          omega
        · rw [if_neg hseen, if_pos rfl]
          omega
      · have hleft : c - removed ≠ unseen := by rw [unseen]; omega
        have hcount : (c - removed).toNat = c.toNat - removed := by omega
        rw [if_pos hlast, if_neg (by omega)]
        refine ⟨_, _, rfl, rfl, hag.set hc (.inr (by omega)) (fun j => ?_) ?_ ?_ ?_,
          Array.size_setIfInBounds, Nat.sub_le ..⟩
        · rw [Histogram.get?_insert, if_neg hleft, hcount]
        · rw [hag.same]
        · omega
        · rw [if_neg hseen, if_neg hleft]

/-- Clearing keeps what was observed, with counts of zero, on both sides. No position is lost or
gained, and the samples are zero. -/
theorem clear (hag : Agrees d h) : Agrees d.clear h.clear where
  countable c hc := by
    obtain ⟨c', -, rfl⟩ := Array.mem_map.mp hc
    split
    · exact .inl rfl
    · exact .inr (Int.le_refl 0)
  get k := by
    rw [Histogram.get?_clear]
    cases hc : d.slots[k]? with
    | none =>
      rw [← hag.get, DenseHistogram.get?_of_outside hc, DenseHistogram.get?_of_outside]
      · rfl
      · rw [DenseHistogram.clear, Array.getElem?_map, hc]
        rfl
    | some c =>
      -- A slot that was observed holds zero now, and one that was not stays unseen.
      have hslot : d.clear.slots[k]? = some (if c = unseen then unseen else 0) := by
        rw [DenseHistogram.clear, Array.getElem?_map, hc]
        rfl
      rw [hag.get?_eq hc, DenseHistogram.get?_of_slot hslot]
      by_cases hseen : c = unseen
      · rw [if_pos hseen, if_pos rfl, if_pos hseen]
        rfl
      · rw [if_neg hseen, if_neg (by decide), if_neg hseen]
        rfl
  observed := by
    rw [DenseHistogram.clear, Array.toList_map, List.countP_map, hag.observed]
    refine List.countP_congr fun c _ => ?_
    by_cases hseen : c = unseen
    · simp [hseen]
    · simp [hseen, show (0 : Int) ≠ unseen by decide]
  samples := by
    rw [DenseHistogram.clear, Array.toList_map, List.map_map]
    refine (List.sum_eq_zero fun n hn => ?_).symm
    obtain ⟨c, -, rfl⟩ := List.mem_map.mp hn
    dsimp only [Function.comp_apply]
    split <;> rfl
  same := rfl

/-- Growing adds slots that were not observed, which the map does not notice. -/
theorem grow (hag : Agrees d h) (size : Nat) : Agrees (d.grow size) h where
  countable c hc := by
    rcases Array.mem_append.mp hc with hold | hnew
    · exact hag.countable c hold
    · exact .inl (Array.mem_replicate.mp hnew).2
  get k := by rw [DenseHistogram.get?_grow, hag.get]
  observed := by
    rw [DenseHistogram.grow]
    dsimp only
    rw [Array.toList_append, List.countP_append, ← hag.observed, Array.toList_replicate,
      List.countP_replicate, if_neg (by simp), Nat.add_zero]
  samples := by
    -- An unseen slot reads as zero, and so adds no samples.
    have hnew : unseen.toNat = 0 := rfl
    rw [DenseHistogram.grow]
    dsimp only
    rw [Array.toList_append, List.map_append, List.sum_append, ← hag.samples,
      Array.toList_replicate, List.map_replicate, hnew, List.sum_replicate_nat, Nat.mul_zero,
      Nat.add_zero]
  same := hag.same

/-- An act that can be done on a histogram over any keys can be done on one over a fixed domain. The
key has to be one of the domain, and the total after the act has to be small enough. -/
theorem act {a : HistogramAct} (hag : Agrees d h) (hwithin : a.Within d.size)
    (hsize : d.size < wordLimit) (htotal : d.samples + a.puts < wordLimit / 2) :
    ∃ d' h', d.act a = .ok d' ∧ h.act a = .ok h' ∧ Agrees d' h' ∧ d'.size = a.resized d.size
      ∧ d'.samples ≤ d.samples + a.puts := by
  cases a with
  | put k n =>
    obtain ⟨d', h', hd, hh, hnew, hsize', hsamples⟩ := hag.put hwithin hsize htotal
    exact ⟨d', h', hd, hh, hnew, hsize', hsamples.le⟩
  | remove k n => exact hag.remove htotal k n
  | clear =>
    exact ⟨_, _, rfl, rfl, hag.clear, Array.size_map, Nat.zero_le _⟩
  | clearValues =>
    exact ⟨_, _, rfl, rfl, .empty d.size, Array.size_replicate, Nat.zero_le _⟩
  | grow size => exact ⟨_, _, rfl, rfl, hag.grow size, d.size_grow size, Nat.le_refl _⟩

/-- Both go through any acts on keys of the domain, as long as what is counted fits a slot. -/
theorem run {acts : List HistogramAct} (hag : Agrees d h) (hfit : HistogramAct.Fit d.size acts)
    (htotal : d.samples + (acts.map HistogramAct.puts).sum < wordLimit / 2) :
    ∃ d' h', d.run acts = .ok d' ∧ h.run acts = .ok h' ∧ Agrees d' h' := by
  induction acts generalizing d h with
  | nil => exact ⟨d, h, rfl, rfl, hag⟩
  | cons a acts ih =>
    rw [List.map_cons, List.sum_cons] at htotal
    obtain ⟨d₁, h₁, hd, hh, hnew, hsize, hsamples⟩ := hag.act hfit.1 hfit.lt (by omega)
    obtain ⟨d', h', hd', hh', hlast⟩ := ih hnew (by rw [hsize]; exact hfit.2) (by omega)
    exact ⟨d', h', Outcome.foldlM_cons_iff.mpr ⟨d₁, hd, hd'⟩,
      Outcome.foldlM_cons_iff.mpr ⟨h₁, hh, hh'⟩, hlast⟩

/-! ### Queries -/

/-- Both list the same positions with the same counts, in the same order. -/
theorem toList_eq (hag : Agrees d h) : d.toList = h.toList := by
  refine eq_of_mem_iff_of_pairwise Nat.lt_asymm d.pairwise_toList h.pairwise_toList fun e => ?_
  rw [DenseHistogram.mem_toList, Histogram.mem_toList, hag.get]

/-- The map lists what the scan of the array comes to. -/
theorem toList_entries (hag : Agrees d h) : h.toList = d.entries.map fun e => (e.1, e.2.toNat) := by
  rw [← hag.toList_eq, DenseHistogram.toList]
  refine List.map_congr_left fun e he => ?_
  rw [DenseHistogram.toWord_of_nonneg (DenseHistogram.nonneg_of_mem_entries hag.countable he)]

/-- Both list the same positions. -/
theorem values_eq (hag : Agrees d h) : d.values = h.values := by
  have hdense : d.values = d.toList.map Prod.fst := by
    rw [DenseHistogram.values, DenseHistogram.toList, List.map_map]
    rfl
  rw [hdense, hag.toList_eq, Histogram.toList, Histogram.values, ExtTreeMap.map_fst_toList_eq_keys]

/-- Both know how many they are. -/
theorem valueCount_eq (hag : Agrees d h) : d.valueCount = h.valueCount := by
  have hlength : d.observed = d.toList.length := by
    rw [hag.observed, ← d.map_snd_zip, List.countP_map, List.countP_eq_length_filter,
      DenseHistogram.toList, List.length_map]
    rfl
  rw [DenseHistogram.valueCount, hlength, hag.toList_eq, Histogram.valueCount,
    Histogram.toList, ExtTreeMap.length_toList]

/-- The number of samples is the sum of all counts. Positions that are not observed add nothing. -/
theorem samples_eq (hag : Agrees d h) : d.samples = (d.toList.map Prod.snd).sum := by
  have hcounts : d.toList.map Prod.snd = d.entries.map fun e => e.2.toNat := by
    rw [hag.toList_eq, hag.toList_entries, List.map_map]
    rfl
  have hslots := congrArg (fun slots => (slots.map Int.toNat).sum) d.map_snd_zip
  rw [hag.samples, hcounts, ← hslots, List.map_map, DenseHistogram.entries, sum_map_filter]
  · rfl
  · intro e hseen
    rw [of_not_not (of_decide_eq_false hseen)]
    rfl

/-- The count of an extreme slot is extreme among the counts. The map asks for the least or greatest
of its counts, and the slots are searched by comparing words, which agree on counts as none is
negative. -/
theorem extremeCount_eq (hag : Agrees d h) {smallest : Bool} {b : Int}
    (hb : DenseHistogram.IsExtreme smallest d.entries b) :
    (if smallest then h.minCount? else h.maxCount?) = some b.toNat := by
  have hnonneg : ∀ e ∈ d.entries, 0 ≤ e.2 := fun e he =>
    DenseHistogram.nonneg_of_mem_entries hag.countable he
  have hcounts : h.toList.map Prod.snd = d.entries.map fun e => e.2.toNat := by
    rw [hag.toList_entries, List.map_map]
    rfl
  obtain ⟨e₀, he₀, rfl⟩ := List.mem_map.mp hb.mem
  have hb₀ := hnonneg e₀ he₀
  have hmem : e₀.2.toNat ∈ h.toList.map Prod.snd := by
    rw [hcounts]
    exact List.mem_map_of_mem he₀
  -- Whichever way the slots compare, the counts compare so, as none is negative.
  cases smallest with
  | true =>
    refine List.min?_eq_some_iff.mpr ⟨hmem, fun n hn => ?_⟩
    rw [hcounts] at hn
    obtain ⟨e, he, rfl⟩ := List.mem_map.mp hn
    have hle := hb.best e he
    simp only [DenseHistogram.better, if_true, decide_eq_false_iff_not] at hle
    omega
  | false =>
    refine List.max?_eq_some_iff.mpr ⟨hmem, fun n hn => ?_⟩
    rw [hcounts] at hn
    obtain ⟨e, he, rfl⟩ := List.mem_map.mp hn
    have hle := hb.best e he
    simp only [DenseHistogram.better, Bool.false_eq_true, if_false, decide_eq_false_iff_not] at hle
    omega

/-- The keys of a count are the positions with this count in their slot. -/
theorem keysOf_eq (hag : Agrees d h) (hc : 0 ≤ c) :
    h.keysOf (some c.toNat) = (d.entries.filter fun e => e.2 = c).map Prod.fst := by
  rw [Histogram.keysOf, hag.toList_entries, List.filter_map, List.map_map]
  refine congrArg _ (List.filter_congr fun e he => ?_)
  have hnonneg := DenseHistogram.nonneg_of_mem_entries hag.countable he
  have heq : e.2.toNat = c.toNat ↔ e.2 = c := by omega
  simp only [Function.comp_apply, beq_eq_decide, Option.some_inj, heq]

/-- The scan for the smallest or the largest count finds the count that the map finds, and the
positions that have it in the same order. -/
theorem extremes_eq (hag : Agrees d h) (smallest : Bool) :
    (d.extremeSlot? smallest).map DenseHistogram.toWord
        = (if smallest then h.minCount? else h.maxCount?)
      ∧ d.extremePositions smallest
        = h.keysOf (if smallest then h.minCount? else h.maxCount?) := by
  rcases d.extremes_spec smallest with ⟨hnone, hslot, hpositions⟩ | ⟨b, hb, hslot, hpositions⟩
  -- Nothing was observed, so that there is no count and no position on either side.
  · have hlist : h.toList = [] := by
      rw [← hag.toList_eq, DenseHistogram.toList, hnone]
      rfl
    have hcount : (if smallest then h.minCount? else h.maxCount?) = none := by
      rw [Histogram.minCount?, Histogram.maxCount?, hlist]
      cases smallest <;> rfl
    rw [hcount, hslot, hpositions, Histogram.keysOf, hlist]
    exact ⟨rfl, rfl⟩
  · obtain ⟨e, he, hcount⟩ := List.mem_map.mp hb.mem
    have hnonneg : 0 ≤ b := hcount ▸ DenseHistogram.nonneg_of_mem_entries hag.countable he
    rw [hag.extremeCount_eq hb, hslot, hpositions, hag.keysOf_eq hnonneg, Option.map_some,
      DenseHistogram.toWord_of_nonneg hnonneg]
    exact ⟨rfl, rfl⟩

/-- All queries are answered from the list of counts, so that none tells the two apart. Those for
extreme counts are answered in different ways, which the lemmas above compare. -/
theorem interchangeable (hag : Agrees d h) : Interchangeable d h where
  get := hag.get
  getD k default := by rw [DenseHistogram.getD, Histogram.getD, hag.get]
  contains k := by
    rw [DenseHistogram.contains, hag.get, Histogram.get?, Histogram.contains,
      ExtTreeMap.contains_eq_isSome_getElem?]
  values := hag.values_eq
  valueCount := hag.valueCount_eq
  isEmpty := by rw [DenseHistogram.isEmpty, Histogram.isEmpty, hag.valueCount_eq]
  samples := hag.same.symm
  minValue := by rw [DenseHistogram.minValue?_eq, Histogram.minValue?, hag.values_eq]
  maxValue := by rw [DenseHistogram.maxValue?_eq, Histogram.maxValue?, hag.values_eq]
  minCount := (hag.extremes_eq true).1
  maxCount := (hag.extremes_eq false).1
  minCountValues := (hag.extremes_eq true).2
  maxCountValues := (hag.extremes_eq false).2

end Agrees

/-- A histogram over a fixed domain and one over any keys are interchangeable. After any acts on
keys of the domain, which may grow on the way, neither has stopped, all queries are answered alike,
and the number of samples is the sum of all counts, if less than `2 ^ 63` was counted in all. -/
theorem interchangeable_of_run {size : Nat} {acts : List HistogramAct}
    (hfit : HistogramAct.Fit size acts)
    (htotal : (acts.map HistogramAct.puts).sum < wordLimit / 2) :
    ∃ d h, (DenseHistogram.empty size).run acts = .ok d ∧ Histogram.empty.run acts = .ok h
      ∧ Interchangeable d h ∧ d.samples = (d.toList.map Prod.snd).sum
      ∧ h.samples = (h.toList.map Prod.snd).sum := by
  have hsize : (DenseHistogram.empty size).size = size := Array.size_replicate
  obtain ⟨d, h, hd, hh, hag⟩ := (Agrees.empty size).run (by rwa [hsize])
    (by rwa [DenseHistogram.empty, Nat.zero_add])
  refine ⟨d, h, hd, hh, hag.interchangeable, hag.samples_eq, ?_⟩
  rw [← hag.toList_eq, hag.same, hag.samples_eq]

/-- Counts that tie, a key that the domain had to grow for, a count of zero, and one that is taken
back to nothing. -/
def HistogramAct.ties : List HistogramAct :=
  [.put 1 4, .grow 6, .put 5 4, .put 0 2, .remove 0 9, .put 2 0, .remove 5 1, .put 5 1]

/-- Two positions tie for the largest count after these acts, and both histograms answer with both
of them, in ascending order. -/
theorem interchangeable_of_run_ties :
    ∃ d h, (DenseHistogram.empty 3).run HistogramAct.ties = .ok d
      ∧ Histogram.empty.run HistogramAct.ties = .ok h
      ∧ d.maxCountValues = [1, 5] ∧ h.maxCountValues = [1, 5] ∧ d.minCountValues = [2]
      ∧ h.minCountValues = [2] ∧ d.samples = 8 ∧ h.samples = 8 := by
  have hfit : HistogramAct.Fit 3 HistogramAct.ties := by
    simp [HistogramAct.ties, HistogramAct.Fit, HistogramAct.Within, HistogramAct.resized, wordLimit]
  obtain ⟨d, h, hd, hh, hsame, -, -⟩ := interchangeable_of_run hfit (by decide)
  have hresult : (DenseHistogram.empty 3).run HistogramAct.ties
      = .ok ⟨#[-1, 4, 0, -1, -1, 4], 3, 8⟩ := by
    decide +kernel
  obtain rfl : ⟨#[-1, 4, 0, -1, -1, 4], 3, 8⟩ = d := Except.ok.inj (hresult.symm.trans hd)
  exact ⟨_, h, hd, hh, rfl, hsame.maxCountValues.symm, rfl, hsame.minCountValues.symm, rfl,
    hsame.samples.symm⟩

end TxnPath
