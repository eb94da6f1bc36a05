import TxnPath.Decimal.Layout
import TxnPath.Digest
import TxnPath.Text.Quoted

/-!
# Parameter values

The values bound to procedure and statement parameters, and found in the rows of result tables.
A scalar has a home among `n` partitions: a whole number by its remainder, a text and a double by
the digest of their bytes. The absent value and lists have none.
-/

set_option autoImplicit false

namespace TxnPath

/-- A parameter value. -/
inductive Value where
  /-- No value. -/
  | null
  /-- A whole number of 64 bits. -/
  | int (value : Int)
  /-- A double, by its bits. -/
  | real (bits : UInt64)
  /-- A text. -/
  | str (value : String)
  /-- A list of values. -/
  | list (items : List Value)
  deriving Inhabited

namespace Value

mutual

/-- Whether two values are the same. -/
def decEq : (a b : Value) → Decidable (a = b)
  | .null, .null => isTrue rfl
  | .int m, .int n => if h : m = n then isTrue (by rw [h]) else isFalse (by simp [h])
  | .real x, .real y => if h : x = y then isTrue (by rw [h]) else isFalse (by simp [h])
  | .str s, .str t => if h : s = t then isTrue (by rw [h]) else isFalse (by simp [h])
  | .list xs, .list ys =>
    match decEqItems xs ys with
    | isTrue h => isTrue (by rw [h])
    | isFalse h => isFalse (by simp [h])
  | .null, .int _ | .null, .real _ | .null, .str _ | .null, .list _
  | .int _, .null | .int _, .real _ | .int _, .str _ | .int _, .list _
  | .real _, .null | .real _, .int _ | .real _, .str _ | .real _, .list _
  | .str _, .null | .str _, .int _ | .str _, .real _ | .str _, .list _
  | .list _, .null | .list _, .int _ | .list _, .real _ | .list _, .str _ => isFalse (by simp)

/-- Whether two lists of values are the same. -/
def decEqItems : (xs ys : List Value) → Decidable (xs = ys)
  | [], [] => isTrue rfl
  | x :: xs, y :: ys =>
    match decEq x y, decEqItems xs ys with
    | isTrue h, isTrue h' => isTrue (by rw [h, h'])
    | isFalse h, _ => isFalse (by simp [h])
    | _, isFalse h => isFalse (by simp [h])
  | [], _ :: _ | _ :: _, [] => isFalse (by simp)

end

instance : DecidableEq Value := decEq

/-- Whether there is no value. -/
def isNull : Value → Bool
  | .null => true
  | _ => false

/-- The whole number, if the value is one. -/
def int? : Value → Option Int
  | .int n => some n
  | _ => none

/-- The text, if the value is one. -/
def str? : Value → Option String
  | .str s => some s
  | _ => none

/-- The elements, if the value is a list. -/
def list? : Value → Option (List Value)
  | .list items => some items
  | _ => none

/-- The partition that a scalar belongs to among `n`. -/
def home? (n : Nat) : Value → Option Nat
  | .int i => some (i % (n : Int)).toNat
  | .str s => some ((Digest.ofText s).bucket n)
  | .real bits => some ((Digest.ofWord bits).bucket n)
  | .null | .list _ => none

/-- The partition that a scalar belongs to among `n`, which must not be zero. -/
def homeAmong (n : Nat) (v : Value) : Except Fault (Option Nat) :=
  if n = 0 then .error .nowhereToHash else .ok (v.home? n)

mutual

/-- How messages show a value: doubles positionally, texts in quotes, lists in brackets. -/
def text : Value → String
  | .null => "null"
  | .int n => toString n
  | .real bits => Decimal.plainLayout.text (Float.ofBits bits)
  | .str s => Text.quoted s
  | .list items => "[" ++ textItems items ++ "]"

/-- Values separated by commas. -/
def textItems : List Value → String
  | [] => ""
  | [v] => text v
  | v :: more => text v ++ ", " ++ textItems more

end

end Value

end TxnPath
