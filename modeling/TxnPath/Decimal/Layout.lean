import TxnPath.Decimal.Shortest

/-!
# Writing and reading numbers as text

A `Layout` holds the decisions of one number format: which magnitudes are written positionally,
whether a whole number keeps its `.0`, how an exponent is signed, and which of two equally near
decimals stands for a double. `Layout.text` writes a double
with the fewest digits that read back, under such a layout. `tenths` writes with one decimal place,
and `nearest` reads a decimal as the double nearest to it.
-/

set_option autoImplicit false

namespace TxnPath.Decimal

/-- The decisions of a number format. -/
structure Layout where
  /-- The range of leading powers of ten that are written positionally; `none` is every one. -/
  positional : Option (Int × Int)
  /-- Whether a whole number written positionally ends in `.0`. -/
  keepFraction : Bool
  /-- Whether a positive exponent has a plus sign. -/
  signedExponent : Bool
  /-- Which of two equally short and equally near decimals is written. -/
  tie : Tie

/-- Messages write every number positionally and a whole number without a point; ties go up. -/
def plainLayout : Layout := ⟨none, false, false, .up⟩

/-- Documents write `0.00001` up to below `10 ^ 16` positionally, with at least one decimal place, and
sign every exponent; ties go to the even digit. -/
def documentLayout : Layout := ⟨some (-5, 15), true, true, .toEven⟩

/-- Diagnoses write `0.0001` up to below `10 ^ 16` positionally, with at least one decimal place; ties
go up. -/
def diagnosticLayout : Layout := ⟨some (-4, 15), true, false, .up⟩

/-- Zeros to fill a place with. -/
def zeros (n : Nat) : String := String.ofList (List.replicate n '0')

/-- A decimal written with a point and no exponent. -/
def positionalText (keepFraction : Bool) (d : Digits) : String :=
  let digits := toString d.digits
  let whole := if keepFraction then ".0" else ""
  if 0 ≤ d.exponent then
    if d.digits = 0 then "0" ++ whole else digits ++ zeros d.exponent.toNat ++ whole
  else
    let places := (-d.exponent).toNat
    if places < digits.length then
      String.ofList (digits.toList.take (digits.length - places)) ++ "." ++
        String.ofList (digits.toList.drop (digits.length - places))
    else
      "0." ++ zeros (places - digits.length) ++ digits

/-- A decimal written as one leading digit, the others behind a point, and an exponent. -/
def exponentText (signed : Bool) (d : Digits) : String :=
  let digits := toString d.digits
  let power : Int := d.exponent + (digits.length - 1 : Nat)
  let fraction := String.ofList (digits.toList.drop 1)
  let mantissa := String.ofList (digits.toList.take 1) ++ (if fraction.isEmpty then "" else "." ++ fraction)
  let sign := if power < 0 then "-" else if signed then "+" else ""
  mantissa ++ "e" ++ sign ++ toString power.natAbs

/-- The text of a double under a layout. -/
def Layout.text (l : Layout) (x : Float) : String :=
  match magnitude x with
  | .nan => "NaN"
  | .infinite => if isNegative x then "-inf" else "inf"
  | .finite mantissa exponent =>
    let d := shortest l.tie mantissa exponent
    let power : Int := d.exponent + ((toString d.digits).length - 1 : Nat)
    let isPositional := match l.positional with
      | none => true
      | some (least, most) => mantissa = 0 ∨ (least ≤ power ∧ power ≤ most)
    (if isNegative x then "-" else "") ++
      (if isPositional then positionalText l.keepFraction d else exponentText l.signedExponent d)

/-- The quotient of two numbers, rounded to the nearest whole number, a half to the even one. -/
def roundHalfEven (numerator denominator : Nat) : Nat :=
  let q := numerator / denominator
  let r := numerator % denominator
  if 2 * r > denominator ∨ (2 * r = denominator ∧ q % 2 = 1) then q + 1 else q

/-- A double written with exactly one decimal place, the exact value rounded and a half going to the
even digit. -/
def tenths (x : Float) : String :=
  match magnitude x with
  | .nan => "NaN"
  | .infinite => if isNegative x then "-inf" else "inf"
  | .finite mantissa exponent =>
    let up := if 0 ≤ exponent then Nat.pow 2 exponent.toNat else 1
    let down := if 0 ≤ exponent then 1 else Nat.pow 2 (-exponent).toNat
    let t := roundHalfEven (mantissa * up * 10) down
    (if isNegative x then "-" else "") ++ toString (t / 10) ++ "." ++ toString (t % 10)

/-- The double nearest to `digits * 10 ^ exponent`. A decimal far outside the range of doubles is
decided by its length. -/
def nearest (digits : Nat) (exponent : Int) : Float :=
  let power := exponent + ((toString digits).length : Int)
  if digits = 0 ∨ power < -400 then 0.0
  else if power > 400 then 1.0 / 0.0
  else if 0 ≤ exponent then Float.ofScientific digits false exponent.toNat
  else Float.ofScientific digits true (-exponent).toNat

end TxnPath.Decimal
