import TxnPath.Fault

/-!
# Histograms over a fixed domain

A histogram whose keys are the positions of an array. A slot holds a signed 64-bit count, and `-1`
for a position that is not observed; a count is stored by its bits, so one of `2 ^ 63` or more takes
a negative slot. The number of observed positions and the number of samples are kept beside it.
-/

set_option autoImplicit false

namespace TxnPath

/-- Counts per position below a fixed size. -/
structure DenseHistogram where
  /-- The count of every position, `-1` where there is none. -/
  slots : Array Int
  /-- The number of observed positions. -/
  observed : Nat
  /-- The number of samples counted in all. -/
  samples : Nat
  deriving DecidableEq

namespace DenseHistogram

/-- What a slot holds for a position that is not observed. -/
def unseen : Int := -1

/-- The signed number with the bits of a count. -/
def ofWord (n : Nat) : Int := if n < wordLimit / 2 then n else n - wordLimit

/-- The count with the bits of a signed number. -/
def toWord (i : Int) : Nat := if i < 0 then (i + wordLimit).toNat else i.toNat

/-- Whether a signed number fits a slot. -/
def fits (i : Int) : Bool := -(wordLimit / 2 : Int) ≤ i && i < (wordLimit / 2 : Int)

/-- The histogram of a size without observed positions. -/
def empty (size : Nat) : DenseHistogram := ⟨Array.replicate size unseen, 0, 0⟩

instance : Inhabited DenseHistogram := ⟨empty 0⟩

/-- The number of positions. -/
def size (h : DenseHistogram) : Nat := h.slots.size

/-- The count of a position, if it is observed. -/
def get? (h : DenseHistogram) (k : Nat) : Option Nat :=
  (h.slots[k]?.filter (· ≠ unseen)).map toWord

/-- The count of a position, or a default. -/
def getD (h : DenseHistogram) (k : Nat) (default : Nat) : Nat := (h.get? k).getD default

/-- Whether a position is observed. -/
def contains (h : DenseHistogram) (k : Nat) : Bool := (h.get? k).isSome

/-- The count of a position that must exist, zero if it is not observed. -/
def count? (h : DenseHistogram) (k : Nat) : Except Fault Nat :=
  if k < h.size then .ok (h.getD k 0) else .error .outOfBounds

/-- Counts a position `n` more times. -/
def add? (h : DenseHistogram) (k n : Nat) : Except Fault DenseHistogram :=
  match h.slots[k]? with
  | none => .error .outOfBounds
  | some c =>
    let next := if c = unseen then ofWord n else c + ofWord n
    let observed := if c = unseen then h.observed + 1 else h.observed
    if fits next ∧ observed < wordLimit ∧ h.samples + n < wordLimit then
      .ok ⟨h.slots.setIfInBounds k next, observed, h.samples + n⟩
    else .error .overflow

/-- Takes back up to `n` counts of a position. -/
def remove? (h : DenseHistogram) (k n : Nat) : Except Fault DenseHistogram :=
  match h.slots[k]? with
  | none => .ok h
  | some c =>
    if c = unseen then .ok h
    else
      let removed := min n (toWord c)
      let next := c - ofWord removed
      if ¬ fits next ∨ h.samples < removed then .error .overflow
      else if next ≠ 0 then .ok ⟨h.slots.setIfInBounds k next, h.observed, h.samples - removed⟩
      else if h.observed = 0 then .error .overflow
      else .ok ⟨h.slots.setIfInBounds k unseen, h.observed - 1, h.samples - removed⟩

/-- Widens the domain to a size; it never shrinks. -/
def grow (h : DenseHistogram) (size : Nat) : DenseHistogram :=
  { h with slots := h.slots ++ Array.replicate (size - h.size) unseen }

/-- Sets the count of every observed position to zero. -/
def clear (h : DenseHistogram) : DenseHistogram :=
  ⟨h.slots.map fun c => if c = unseen then unseen else 0, h.observed, 0⟩

/-- Forgets every observed position. -/
def clearValues (h : DenseHistogram) : DenseHistogram := empty h.size

/-- The observed positions with what their slots hold, ascending. -/
def entries (h : DenseHistogram) : List (Nat × Int) :=
  ((List.range h.size).zip h.slots.toList).filter fun e => e.2 ≠ unseen

/-- The observed positions, ascending. -/
def values (h : DenseHistogram) : List Nat := h.entries.map Prod.fst

/-- The observed positions with their counts, ascending. -/
def toList (h : DenseHistogram) : List (Nat × Nat) := h.entries.map fun e => (e.1, toWord e.2)

/-- The number that is kept of observed positions. -/
def valueCount (h : DenseHistogram) : Nat := h.observed

/-- Whether no position is observed. -/
def isEmpty (h : DenseHistogram) : Bool := h.valueCount == 0

/-- The smallest observed position. -/
def minValue? (h : DenseHistogram) : Option Nat := (List.range h.size).find? h.contains

/-- The largest observed position, looked for from the end. -/
def maxValue? (h : DenseHistogram) : Option Nat := (List.range h.size).reverse.find? h.contains

/-- Whether one slot is smaller than another, or larger if the largest is looked for. -/
def better (smallest : Bool) (a b : Int) : Bool := if smallest then a < b else b < a

/-- The smallest or the largest slot so far, once another one is seen. It takes over only if it is
better. -/
def extreme (smallest : Bool) (best : Option Int) (c : Int) : Option Int :=
  if c = unseen then best
  else
    match best with
    | some b => if better smallest c b then some c else some b
    | none => some c

/-- The smallest or the largest slot. -/
def extremeSlot? (h : DenseHistogram) (smallest : Bool) : Option Int :=
  h.slots.foldl (extreme smallest) none

/-- The smallest or the largest slot so far and its positions, once another position is seen. -/
def extremes (smallest : Bool) (s : Option Int × List Nat) (e : Nat × Int) :
    Option Int × List Nat :=
  if e.2 = unseen then s
  else
    match s.1 with
    | some b =>
      if b = e.2 then (some b, s.2 ++ [e.1])
      else if better smallest b e.2 then s
      else (some e.2, [e.1])
    | none => (some e.2, [e.1])

/-- The positions of the smallest or the largest slot, ascending. -/
def extremePositions (h : DenseHistogram) (smallest : Bool) : List Nat :=
  (((List.range h.size).zip h.slots.toList).foldl (extremes smallest) (none, [])).2

/-- The smallest count. -/
def minCount? (h : DenseHistogram) : Option Nat := (h.extremeSlot? true).map toWord

/-- The largest count. -/
def maxCount? (h : DenseHistogram) : Option Nat := (h.extremeSlot? false).map toWord

/-- The positions of the smallest count. -/
def minCountValues (h : DenseHistogram) : List Nat := h.extremePositions true

/-- The positions of the largest count. -/
def maxCountValues (h : DenseHistogram) : List Nat := h.extremePositions false

end DenseHistogram

end TxnPath
