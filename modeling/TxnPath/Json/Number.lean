import TxnPath.Ident
import TxnPath.Json.Basic

/-!
# Numbers in JSON text

A number without point and exponent stays whole if it fits a signed or unsigned 64-bit word;
`-0` and all others become doubles. A double is read as a significand, made of the leading digits
that fit 64 bits, times or divided by powers of ten, each step rounding once (`scale`). A value too
large for a double is refused; one too small is zero.
-/

set_option autoImplicit false

namespace TxnPath.Json

/-- The value of a digit character. -/
def digitValue (c : Char) : Nat := c.toNat - '0'.toNat

/-- Appends whole digits to a significand as long as it fits a word, and counts those left out. -/
def wholeDigits : Nat → Nat → List Char → Nat × Nat
  | significand, skipped, [] => (significand, skipped)
  | significand, skipped, c :: rest =>
    let next := significand * 10 + digitValue c
    if skipped = 0 ∧ next < wordLimit then wholeDigits next 0 rest
    else wholeDigits significand (skipped + 1) rest

/-- Appends decimal places to a significand until one no longer fits a word, and counts those
taken. -/
def decimalPlaces : Nat → Nat → List Char → Nat × Nat
  | significand, taken, [] => (significand, taken)
  | significand, taken, c :: rest =>
    let next := significand * 10 + digitValue c
    if next < wordLimit then decimalPlaces next (taken + 1) rest else (significand, taken)

/-- A power of ten within the range of doubles. -/
def powerOfTen (n : Nat) : Float := Float.ofScientific 1 false n

/-- Divides by `10 ^ 308` until the remaining exponent is in range; a double is zero after three
such steps at the latest, which is what `fuel` counts. -/
def shrink : Nat → Float → Nat → Float
  | 0, _, _ => 0
  | fuel + 1, value, exponent =>
    if exponent ≤ 308 then value / powerOfTen exponent
    else if value == 0 then 0
    else shrink fuel (value / powerOfTen 308) (exponent - 308)

/-- `significand * 10 ^ exponent` as a double, unless it is too large. -/
def scale (significand : Nat) (exponent : Int) : Option Float :=
  let value := Float.ofNat significand
  if exponent < 0 then some (shrink 4 value (-exponent).toNat)
  else if significand = 0 then some 0
  else if exponent > 308 then none
  else
    let scaled := value * powerOfTen exponent.toNat
    if scaled.isInf then none else some scaled

/-- The double that a sign, whole digits, decimal places and an exponent stand for. -/
def realOf (negative : Bool) (whole places : List Char) (exponent : Int) : Option Float :=
  let (significand, skipped) := wholeDigits 0 0 whole
  let (significand, taken) := decimalPlaces significand 0 places
  (scale significand (exponent + skipped - taken)).map fun x => if negative then -x else x

/-- The natural number that a list of digits stands for. -/
def naturalOf (digits : List Char) : Nat := digits.foldl (fun n c => n * 10 + digitValue c) 0

/-- The value of a number without point and exponent. -/
def wholeOf (negative : Bool) (digits : List Char) : Option Json :=
  let n := naturalOf digits
  if negative then
    if 0 < n ∧ n ≤ wordLimit / 2 then some (.int (-(n : Int)))
    else (realOf true digits [] 0).map .real
  else if n < wordLimit then some (.int n)
  else (realOf false digits [] 0).map .real

/-- Reads the optional sign of an exponent, and tells whether it is a minus. -/
def exponentSign (input : List Char) : Bool × List Char :=
  match input with
  | '-' :: rest => (true, rest)
  | '+' :: rest => (false, rest)
  | _ => (false, input)

/-- Reads the digits of an exponent behind its mark and optional sign. -/
def readExponent (input : List Char) : Option (Int × List Char) :=
  let (negative, input) := exponentSign input
  match input.takeWhile Char.isDigit with
  | [] => none
  | digits =>
    let n : Int := naturalOf digits
    some (if negative then -n else n, input.dropWhile Char.isDigit)

/-- Reads the exponent behind a number's whole digits and decimal places. -/
def readScaled (negative : Bool) (whole places input : List Char) : Option (Json × List Char) :=
  (readExponent input).bind fun (exponent, rest) =>
    (realOf negative whole places exponent).map fun x => (.real x, rest)

/-- Reads decimal places behind a number's whole digits and point. -/
def readPlaces (negative : Bool) (whole input : List Char) : Option (Json × List Char) :=
  let places := input.takeWhile Char.isDigit
  let rest := input.dropWhile Char.isDigit
  if places.isEmpty then none
  else
    match rest with
    | 'e' :: rest | 'E' :: rest => readScaled negative whole places rest
    | _ => (realOf negative whole places 0).map fun x => (.real x, rest)

/-- Reads a number from its first digit on. -/
def readUnsigned (negative : Bool) (input : List Char) : Option (Json × List Char) :=
  let whole := input.takeWhile Char.isDigit
  let rest := input.dropWhile Char.isDigit
  if whole.isEmpty ∨ (1 < whole.length ∧ whole.head? = some '0') then none
  else
    match rest with
    | '.' :: rest => readPlaces negative whole rest
    | 'e' :: rest | 'E' :: rest => readScaled negative whole [] rest
    | _ => (wholeOf negative whole).map fun j => (j, rest)

/-- Reads a number. -/
def readNumber (input : List Char) : Option (Json × List Char) :=
  match input with
  | '-' :: rest => readUnsigned true rest
  | _ => readUnsigned false input

end TxnPath.Json
