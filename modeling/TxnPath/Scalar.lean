import TxnPath.Decimal.Layout
import TxnPath.StableSort

/-!
# The arithmetic of probabilities

Probabilities, confidences, cut-offs and correlation coefficients are computed in one order of one
set of operations. `Scalar` names those operations, so that the same definitions run on doubles and
are reasoned about on exact rationals.
-/

set_option autoImplicit false

namespace TxnPath

/-- The operations that probabilities are computed with, and the texts they are reported by. -/
class Scalar (R : Type) extends
    Zero R, One R, Add R, Sub R, Mul R, Div R, NatCast R, LT R, LE R where
  /-- Whether one number is below another. -/
  decLt : DecidableLT R
  /-- Whether one number is at most another. -/
  decLe : DecidableLE R
  /-- The text of a number within a message. -/
  plain : R → String
  /-- The text of a number within a diagnosis. -/
  diagnostic : R → String
  /-- The text of a number with one decimal place. -/
  tenths : R → String

namespace Scalar

variable {R : Type} [Scalar R]

instance (priority := low) : DecidableLT R := decLt

instance (priority := low) : DecidableLE R := decLe

/-- The larger of two numbers; a value that is not comparable with itself never wins. -/
def larger (a b : R) : R := if a < b then b else if a ≤ a then a else b

/-- The smaller of two numbers; a value that is not comparable with itself never wins. -/
def smaller (a b : R) : R := if b < a then b else if a ≤ a then a else b

/-- How far two numbers lie apart. -/
def distance (a b : R) : R := if a - b < 0 then 0 - (a - b) else a - b

/-- The quotient of two natural numbers. -/
def ratio (a b : Nat) : R := (a : R) / (b : R)

/-- The sum of a list, from the left. -/
def sum (xs : List R) : R := xs.foldl (· + ·) 0

/-- Stable order by descending key: of two equal keys the earlier element stays first. -/
def sortDescending {α : Type} (key : α → R) (xs : List α) : List α :=
  stableSort (fun a b => !decide (key a < key b)) xs

end Scalar

/-- Doubles, with the formats of messages, diagnoses and reports. -/
instance : Scalar Float where
  decLt := inferInstance
  decLe := inferInstance
  natCast := Float.ofNat
  plain := Decimal.plainLayout.text
  diagnostic := Decimal.diagnosticLayout.text
  tenths := Decimal.tenths

/-- Exact rationals, for reasoning. -/
instance : Scalar Rat where
  toZero := @Zero.ofOfNat0 Rat (@Rat.instOfNat 0)
  toOne := @One.ofOfNat1 Rat (@Rat.instOfNat 1)
  decLt := inferInstance
  decLe := inferInstance
  plain := fun q => toString q
  diagnostic := fun q => toString q
  tenths := fun q => toString q

end TxnPath
