/-!
# The fewest digits that read back

A finite double is `mantissa * 2 ^ exponent`. The reals that round to it form an interval around it,
whose ends belong to it exactly when the mantissa is even. `shortest` tries the decimal grids with
one, two, … seventeen significant digits and takes the first that has a point in that interval; of
two such points it takes the nearer. Two equally near ones exist, for instance around `2 ^ 50 + 1/4`
on the grid of tenths; which of them is taken is a decision of the number format (`Tie`). All of it is
exact arithmetic on natural numbers.
-/

set_option autoImplicit false

namespace TxnPath.Decimal

/-- What the bits of a double stand for. -/
inductive Magnitude where
  /-- No number. -/
  | nan
  /-- Beyond every finite number. -/
  | infinite
  /-- The number `mantissa * 2 ^ exponent`. -/
  | finite (mantissa : Nat) (exponent : Int)

/-- Whether the sign bit is set. -/
def isNegative (x : Float) : Bool := Nat.pow 2 63 ≤ x.toBits.toNat

/-- The magnitude of a double, its sign left out. -/
def magnitude (x : Float) : Magnitude :=
  let bits := x.toBits.toNat % Nat.pow 2 63
  let fraction := bits % Nat.pow 2 52
  match bits / Nat.pow 2 52 with
  | 0 => .finite fraction (-1074)
  | 2047 => if fraction = 0 then .infinite else .nan
  | e => .finite (Nat.pow 2 52 + fraction) (e - 1075)

/-- The decimal number `digits * 10 ^ exponent`. -/
structure Digits where
  /-- The significant digits, as one number. -/
  digits : Nat
  /-- The power of ten that they count. -/
  exponent : Int

/-- Ten to a power, as a numerator and a denominator. -/
def tenTo (e : Int) : Nat × Nat :=
  if 0 ≤ e then (Nat.pow 10 e.toNat, 1) else (1, Nat.pow 10 (-e).toNat)

/-- The value, the two ends of its rounding interval and their common denominator, in quarters of
the last binary place. Below a power of two the doubles lie twice as dense, so the lower end is
nearer there. -/
structure Interval where
  value : Nat
  low : Nat
  high : Nat
  denominator : Nat
  /-- Whether the ends round to the value too. -/
  closed : Bool

/-- The rounding interval of `mantissa * 2 ^ exponent`. -/
def Interval.of (mantissa : Nat) (exponent : Int) : Interval :=
  let below := if mantissa = Nat.pow 2 52 ∧ exponent > -1074 then 1 else 2
  let unit := exponent - 2
  let up := if 0 ≤ unit then Nat.pow 2 unit.toNat else 1
  let down := if 0 ≤ unit then 1 else Nat.pow 2 (-unit).toNat
  { value := 4 * mantissa * up
    low := (4 * mantissa - below) * up
    high := (4 * mantissa + 2) * up
    denominator := down
    closed := mantissa % 2 = 0 }

/-- The largest `k` with `10 ^ k` at most the value, given a guess that is off by at most one. -/
def Interval.leadingPower (i : Interval) (guess : Int) : Int :=
  let reaches := fun (k : Int) => let t := tenTo k; t.1 * i.denominator ≤ i.value * t.2
  if ¬ reaches guess then guess - 1 else if reaches (guess + 1) then guess + 1 else guess

/-- Which of two points at the same distance from a value stands for it. -/
inductive Tie where
  /-- The one whose last digit is even. -/
  | toEven
  /-- The larger one. -/
  | up
  deriving DecidableEq

/-- Whether the point `lower` is taken rather than `lower + 1` when the value is halfway. -/
def Tie.keepsLower (tie : Tie) (lower : Nat) : Bool :=
  match tie with
  | .toEven => lower % 2 = 0
  | .up => false

/-- The point of the grid of step `10 ^ step` that lies in the interval and is nearest to the value,
if the grid has one. -/
def Interval.nearest? (i : Interval) (tie : Tie) (step : Int) : Option Digits :=
  let t := tenTo step
  let unit := t.1 * i.denominator
  let value := i.value * t.2
  let inside := fun (c : Nat) =>
    if i.closed then i.low * t.2 ≤ c * unit ∧ c * unit ≤ i.high * t.2
    else i.low * t.2 < c * unit ∧ c * unit < i.high * t.2
  let lower := value / unit
  let upper := lower + 1
  let below := value - lower * unit
  let above := upper * unit - value
  match decide (inside lower), decide (inside upper) with
  | true, true =>
    if below < above ∨ (below = above ∧ tie.keepsLower lower) then some ⟨lower, step⟩
    else some ⟨upper, step⟩
  | true, false => some ⟨lower, step⟩
  | false, true => some ⟨upper, step⟩
  | false, false => none

/-- The first grid with a hit, from `count` further digits on. -/
def Interval.search (i : Interval) (tie : Tie) (power : Int) : Nat → Nat → Digits
  | 0, tried => ⟨i.value / i.denominator, power - tried⟩
  | more + 1, tried =>
    match i.nearest? tie (power - tried) with
    | some d => d
    | none => i.search tie power more (tried + 1)

/-- Drops trailing zeros; `fuel` bounds their number. -/
def Digits.trim : Nat → Digits → Digits
  | 0, d => d
  | fuel + 1, d =>
    if d.digits ≠ 0 ∧ d.digits % 10 = 0 then Digits.trim fuel ⟨d.digits / 10, d.exponent + 1⟩ else d

/-- The shortest decimal that reads back as `mantissa * 2 ^ exponent`, nearest to it among those. -/
def shortest (tie : Tie) (mantissa : Nat) (exponent : Int) : Digits :=
  if mantissa = 0 then ⟨0, 0⟩
  else
    let i := Interval.of mantissa exponent
    let guess := ((mantissa.log2 : Int) + exponent) * 30103 / 100000
    (i.search tie (i.leadingPower guess) 17 0).trim 20

end TxnPath.Decimal
