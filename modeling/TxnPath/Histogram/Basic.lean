import TxnPath.Fault
import Std.Data.ExtTreeMap

/-!
# Histograms

How often each of a set of ordered keys was counted. A key is observed from its first count on.
`clear` keeps the observed keys with a count of zero, `clearValues` forgets them, and removing the
last count of a key forgets it as well. Counts and their sum are 64-bit words: counting beyond that
is an overflow.
-/

set_option autoImplicit false

namespace TxnPath

open Std (ExtTreeMap TransOrd)

/-- Counts per key, and the number of samples counted in all. -/
structure Histogram (K : Type) [Ord K] where
  /-- The count of every observed key. -/
  counts : ExtTreeMap K Nat compare
  /-- The sum that is kept of all counts. -/
  samples : Nat

namespace Histogram

variable {K : Type} [Ord K] [TransOrd K]

/-- The histogram without observed keys. -/
def empty : Histogram K := ⟨∅, 0⟩

instance : EmptyCollection (Histogram K) := ⟨empty⟩

instance : Inhabited (Histogram K) := ⟨empty⟩

/-- The count of a key, if it is observed. -/
def get? (h : Histogram K) (k : K) : Option Nat := h.counts[k]?

/-- The count of a key, or a default. -/
def getD (h : Histogram K) (k : K) (default : Nat) : Nat := (h.get? k).getD default

/-- Whether a key is observed. -/
def contains (h : Histogram K) (k : K) : Bool := h.counts.contains k

/-- Counts a key `n` more times. -/
def add (h : Histogram K) (k : K) (n : Nat) : Histogram K :=
  ⟨h.counts.insert k (h.getD k 0 + n), h.samples + n⟩

/-- Counts a key `n` more times, as long as the counters hold the result. -/
def add? (h : Histogram K) (k : K) (n : Nat) : Except Fault (Histogram K) :=
  if h.getD k 0 + n < wordLimit ∧ h.samples + n < wordLimit then .ok (h.add k n) else .error .overflow

/-- Takes back up to `n` counts of a key. -/
def remove? (h : Histogram K) (k : K) (n : Nat) : Except Fault (Histogram K) :=
  match h.get? k with
  | none => .ok h
  | some c =>
    let removed := min n c
    if h.samples < removed then .error .overflow
    else if c = removed then .ok ⟨h.counts.erase k, h.samples - removed⟩
    else .ok ⟨h.counts.insert k (c - removed), h.samples - removed⟩

/-- Sets the count of every observed key to zero. -/
def clear (h : Histogram K) : Histogram K := ⟨h.counts.map fun _ _ => 0, 0⟩

/-- Forgets every observed key. -/
def clearValues (_ : Histogram K) : Histogram K := empty

/-- The observed keys with their counts, ascending. -/
def toList (h : Histogram K) : List (K × Nat) := h.counts.toList

/-- The observed keys, ascending. -/
def values (h : Histogram K) : List K := h.counts.keys

/-- The number of observed keys. -/
def valueCount (h : Histogram K) : Nat := h.counts.size

/-- Whether no key is observed. -/
def isEmpty (h : Histogram K) : Bool := h.valueCount == 0

/-- The smallest observed key. -/
def minValue? (h : Histogram K) : Option K := h.values.head?

/-- The largest observed key. -/
def maxValue? (h : Histogram K) : Option K := h.values.getLast?

/-- The smallest count. -/
def minCount? (h : Histogram K) : Option Nat := (h.toList.map Prod.snd).min?

/-- The largest count. -/
def maxCount? (h : Histogram K) : Option Nat := (h.toList.map Prod.snd).max?

/-- The keys of one count, ascending. -/
def keysOf (h : Histogram K) (count : Option Nat) : List K :=
  (h.toList.filter fun e => some e.2 == count).map Prod.fst

/-- The keys of the smallest count. -/
def minCountValues (h : Histogram K) : List K := h.keysOf h.minCount?

/-- The keys of the largest count. -/
def maxCountValues (h : Histogram K) : List K := h.keysOf h.maxCount?

end Histogram

end TxnPath
