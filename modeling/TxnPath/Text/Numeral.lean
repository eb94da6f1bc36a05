import TxnPath.Decimal.Layout
import TxnPath.Ident

/-!
# Numerals in settings

The numbers that environment variables hold: whole numbers in decimal digits with an optional plus
sign, and doubles with an optional sign, point and exponent, or one of the words for no number and
for beyond all numbers. There are no blanks and no separators; anything else is no numeral.
-/

set_option autoImplicit false

namespace TxnPath.Text

/-- The number that a list of digits stands for. -/
def digitsValue (digits : List Char) : Nat := digits.foldl (fun n c => n * 10 + (c.toNat - 48)) 0

/-- A non-empty list of digits as a number. -/
def digits? (cs : List Char) : Option Nat :=
  if !cs.isEmpty && cs.all Char.isDigit then some (digitsValue cs) else none

/-- A natural number below a bound. -/
def natural? (bound : Nat) (s : String) : Option Nat :=
  let digits := match s.toList with
    | '+' :: rest => rest
    | cs => cs
  (digits? digits).filter (· < bound)

/-- A truth value. -/
def truth? (s : String) : Option Bool :=
  if s = "true" then some true else if s = "false" then some false else none

/-- The power of ten written behind a number, if anything is. -/
def exponent? (cs : List Char) : Option Int :=
  match cs with
  | [] => some 0
  | c :: rest =>
    if c = 'e' ∨ c = 'E' then
      match rest with
      | '-' :: digits => (digits? digits).map fun n => -(n : Int)
      | '+' :: digits => (digits? digits).map fun n => (n : Int)
      | digits => (digits? digits).map fun n => (n : Int)
    else none

/-- A double without a sign. -/
def unsigned? (cs : List Char) : Option Float :=
  let word := String.ofList (cs.map Char.toLower)
  if word = "inf" ∨ word = "infinity" then some (1.0 / 0.0)
  else if word = "nan" then some (0.0 / 0.0)
  else
    let whole := cs.takeWhile Char.isDigit
    let rest := cs.dropWhile Char.isDigit
    let (places, rest) := match rest with
      | '.' :: rest => (rest.takeWhile Char.isDigit, rest.dropWhile Char.isDigit)
      | rest => ([], rest)
    if whole.isEmpty && places.isEmpty then none
    else (exponent? rest).map fun e => Decimal.nearest (digitsValue (whole ++ places)) (e - places.length)

/-- A double. -/
def real? (s : String) : Option Float :=
  match s.toList with
  | '-' :: rest => (unsigned? rest).map fun x => -x
  | '+' :: rest => unsigned? rest
  | cs => unsigned? cs

end TxnPath.Text
