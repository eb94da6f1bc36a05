import Mathlib
import TxnPath.Scalar

/-!
# `TxnPath.Proofs.Scalar`: how far numbers are ordered

`Scalar` says nothing about what its comparisons and its operations do, so that doubles are an
instance. What a walk makes of them takes an order among the numbers that it compares, and no more
than that: `Scalar.Ranks` says of a set of numbers that the comparison ranks its members. All sets of
rationals are ranked (`Scalar.ranks_rat`), and all sets of doubles without `NaN` (`Double.ranks`).

`Scalar.Ordered` is for arithmetic whose non-negative numbers are ranked, contain zero and are closed
under addition. Doubles are such numbers as well as rationals: rounding may change a sum, but not its
sign, and `NaN` is not at least zero. Sums of probabilities are therefore positive or zero, whatever
they are rounded to (`Scalar.sum_nonneg`).

Doubles compare as their places do (`Double.compare_eq`), which are linearly ordered. The places are
read off sign, exponent and mantissa.
-/

set_option autoImplicit false

namespace TxnPath

namespace Scalar

variable {R : Type} [Scalar R] {S T : Set R} {a b : R}

/-! ### Numbers that are ranked -/

/-- The comparison ranks the members of a set: any two of them compare, in a transitive way, and one
is below another if it is not at least as great. Two different members may have one rank, as the two
zeros of doubles have. -/
structure Ranks (S : Set R) : Prop where
  total : ∀ a ∈ S, ∀ b ∈ S, a ≤ b ∨ b ≤ a
  trans : ∀ a ∈ S, ∀ b ∈ S, ∀ c ∈ S, a ≤ b → b ≤ c → a ≤ c
  lt_iff : ∀ a ∈ S, ∀ b ∈ S, a < b ↔ ¬ b ≤ a

/-- Some of the members of a ranked set are ranked. -/
theorem Ranks.mono (h : Ranks T) (hsub : S ⊆ T) : Ranks S where
  total a ha b hb := h.total a (hsub ha) b (hsub hb)
  trans a ha b hb c hc := h.trans a (hsub ha) b (hsub hb) c (hsub hc)
  lt_iff a ha b hb := h.lt_iff a (hsub ha) b (hsub hb)

/-- A member is at most itself, as it compares with itself. -/
theorem Ranks.refl (h : Ranks S) (ha : a ∈ S) : a ≤ a := (h.total a ha a ha).elim id id

/-- Rationals are ranked, as they are linearly ordered. -/
theorem ranks_rat (S : Set Rat) : Ranks S where
  total a _ b _ := le_total a b
  trans _ _ _ _ _ _ := le_trans
  lt_iff _ _ _ _ := not_le.symm

/-! ### Least and greatest members -/

/-- The smaller one of two numbers is one of them, whether they compare or not. -/
theorem smaller_eq_or (a b : R) : smaller a b = a ∨ smaller a b = b := by
  rw [smaller]
  split
  · exact .inr rfl
  · split
    · exact .inl rfl
    · exact .inr rfl

/-- The larger of two numbers is one of them, whatever the comparison says. -/
theorem larger_eq_or (a b : R) : larger a b = a ∨ larger a b = b := by
  rw [larger]
  split
  · exact .inr rfl
  · split
    · exact .inl rfl
    · exact .inr rfl

/-- The smaller one of two ranked numbers is at most as great as both. -/
theorem Ranks.smaller_le (h : Ranks S) (ha : a ∈ S) (hb : b ∈ S) :
    smaller a b ≤ a ∧ smaller a b ≤ b := by
  rw [smaller]
  split
  case isTrue hlt =>
    have hnot := (h.lt_iff b hb a ha).mp hlt
    exact ⟨(h.total b hb a ha).resolve_right hnot, h.refl hb⟩
  case isFalse hlt =>
    rw [if_pos (h.refl ha)]
    exact ⟨h.refl ha, not_not.mp fun hnot => hlt ((h.lt_iff b hb a ha).mpr hnot)⟩

/-- The larger one of two ranked numbers is at least as great as both. -/
theorem Ranks.le_larger (h : Ranks S) (ha : a ∈ S) (hb : b ∈ S) :
    a ≤ larger a b ∧ b ≤ larger a b := by
  rw [larger]
  split
  case isTrue hlt =>
    have hnot := (h.lt_iff a ha b hb).mp hlt
    exact ⟨(h.total a ha b hb).resolve_right hnot, h.refl hb⟩
  case isFalse hlt =>
    rw [if_pos (h.refl ha)]
    exact ⟨h.refl ha, not_not.mp fun hnot => hlt ((h.lt_iff a ha b hb).mpr hnot)⟩

/-- Taking the smaller one again and again ends at one of the numbers seen, or at the bound that was
begun with. -/
theorem foldl_smaller_mem (f : Nat → R) (bound : R) (ps : List Nat) :
    ps.foldl (fun least p => smaller least (f p)) bound ∈ insert bound (f '' {p | p ∈ ps}) := by
  induction ps generalizing bound with
  | nil => exact .inl rfl
  | cons p ps ih =>
    rw [List.foldl_cons]
    rcases ih (smaller bound (f p)) with heq | ⟨q, hq, heq⟩
    · rw [heq]
      exact (smaller_eq_or bound (f p)).imp id fun hp => ⟨p, List.mem_cons_self, hp.symm⟩
    · exact .inr ⟨q, List.mem_cons_of_mem p hq, heq⟩

/-- Among ranked numbers it ends at the least. The induction is on the last number, which is compared
with the least of those before. -/
theorem Ranks.isLeast_foldl_smaller {f : Nat → R} {bound : R} {ps : List Nat}
    (h : Ranks (insert bound (f '' {p | p ∈ ps}))) :
    IsLeast (insert bound (f '' {p | p ∈ ps}))
      (ps.foldl (fun least p => smaller least (f p)) bound) := by
  refine ⟨foldl_smaller_mem f bound ps, ?_⟩
  induction ps using List.reverseRecOn with
  | nil =>
    rintro x (rfl | ⟨p, hp, _⟩)
    · exact h.refl (.inl rfl)
    · exact absurd hp List.not_mem_nil
  | append_singleton ps p ih =>
    have hsub : insert bound (f '' {q | q ∈ ps}) ⊆ insert bound (f '' {q | q ∈ ps ++ [p]}) :=
      Set.insert_subset_insert (Set.image_mono fun q hq => List.mem_append_left _ hq)
    have hbefore := hsub (foldl_smaller_mem f bound ps)
    have hp : f p ∈ insert bound (f '' {q | q ∈ ps ++ [p]}) := .inr ⟨p, by simp, rfl⟩
    -- The smaller of the least so far and the last one is at most both of them.
    obtain ⟨hle, hlast⟩ := h.smaller_le hbefore hp
    have hmem := foldl_smaller_mem f bound (ps ++ [p])
    rw [List.foldl_append, List.foldl_cons, List.foldl_nil] at hmem ⊢
    rintro x (rfl | ⟨q, hq, rfl⟩)
    · exact h.trans _ hmem _ hbefore _ (.inl rfl) hle (ih (h.mono hsub) (.inl rfl))
    · rcases List.mem_append.mp hq with hq | hq
      · exact h.trans _ hmem _ hbefore _ (.inr ⟨q, List.mem_append_left _ hq, rfl⟩) hle
          (ih (h.mono hsub) (.inr ⟨q, hq, rfl⟩))
      · rw [List.mem_singleton.mp hq]
        exact hlast

/-! ### Non-negative numbers -/

/-- Arithmetic in which the numbers that are at least zero are ranked, and in which adding them up
leads to such numbers again. -/
class Ordered (R : Type) [Scalar R] : Prop where
  ranks : Ranks {a : R | 0 ≤ a}
  zero_le : (0 : R) ≤ 0
  add_nonneg : ∀ a b : R, 0 ≤ a → 0 ≤ b → 0 ≤ a + b

instance : Ordered Rat where
  ranks := ranks_rat _
  zero_le := le_rfl
  add_nonneg _ _ := add_nonneg

/-- What non-negative numbers add up to is positive or zero. -/
theorem sum_nonneg [Ordered R] {xs : List R} (h : ∀ x ∈ xs, 0 ≤ x) : 0 ≤ sum xs := by
  suffices ∀ (total : R), 0 ≤ total → 0 ≤ xs.foldl (· + ·) total from this 0 Ordered.zero_le
  induction xs with
  | nil => exact fun _ htotal => htotal
  | cons x xs ih =>
    obtain ⟨hx, hxs⟩ := List.forall_mem_cons.mp h
    exact fun total htotal => ih hxs _ (Ordered.add_nonneg total x htotal hx)

/-- A non-negative number that is not positive is at most zero as well, and so is as good as zero. -/
theorem Ordered.le_zero [Ordered R] (h : 0 ≤ a) (hnot : ¬ 0 < a) : a ≤ 0 :=
  not_not.mp fun hle => hnot ((Ordered.ranks.lt_iff 0 Ordered.zero_le a h).mpr hle)

end Scalar

/-! ### Doubles in order -/

namespace Double

open Float.Model (UnpackedFloat Format)

/-- The place of a number among all: first by sign, with infinities outermost, then by exponent and
mantissa, which count downwards below zero. -/
def placeOf : UnpackedFloat → ℤ ×ₗ ℤ ×ₗ ℤ
  | .infinity .negative => toLex (-2, toLex (0, 0))
  | .finite .negative mantissa exponent _ => toLex (-1, toLex (-exponent, -(mantissa : ℤ)))
  | .notANumber | .zero _ => toLex (0, toLex (0, 0))
  | .finite .positive mantissa exponent _ => toLex (1, toLex (exponent, (mantissa : ℤ)))
  | .infinity .positive => toLex (2, toLex (0, 0))

/-- Negation turns a comparison around. -/
theorem compare_neg (a b : ℤ) : compare (-a) (-b) = (compare a b).swap := by
  rw [← cmp_eq_compare, ← cmp_eq_compare, cmp_swap]
  exact StrictAnti.cmp_map_eq (fun _ _ => Int.neg_lt_neg) a b

/-- Natural numbers compare as the integers that they are. -/
theorem compare_cast (a b : ℕ) : compare (a : ℤ) b = compare a b := by
  rw [← cmp_eq_compare, ← cmp_eq_compare]
  exact StrictMono.cmp_map_eq (fun _ _ => Int.ofNat_lt.mpr) a b

/-- Places with one sign compare by what follows it. -/
theorem compare_of_sign (s a b c d : ℤ) :
    compare (toLex (s, toLex (a, b)) : ℤ ×ₗ ℤ ×ₗ ℤ) (toLex (s, toLex (c, d)))
      = (compare a c).then (compare b d) := by
  have hself : compare s s = .eq := Std.ReflOrd.compare_self
  show (compare s s).then ((compare a c).then (compare b d)) = _
  rw [hself]
  rfl

/-- Numbers compare as their places do. Places are triples in order of sign, exponent and mantissa,
with infinities at either end and both zeros in the middle; a negative number has its exponent and
mantissa negated. -/
theorem compare_eq {u v : UnpackedFloat} (hu : u.isNaN = false) (hv : v.isNaN = false) :
    u.compare v = some (compare (placeOf u) (placeOf v)) := by
  cases u with
  | notANumber => cases hu
  | infinity s =>
    cases v with
    | notANumber => cases hv
    | infinity s' => cases s <;> cases s' <;> rfl
    | zero => cases s <;> rfl
    | finite s' => cases s <;> cases s' <;> rfl
  | zero =>
    cases v with
    | notANumber => cases hv
    | infinity s' => cases s' <;> rfl
    | zero => rfl
    | finite s' => cases s' <;> rfl
  | finite s m e =>
    cases v with
    | notANumber => cases hv
    | infinity s' => cases s <;> cases s' <;> rfl
    | zero => cases s <;> rfl
    | finite s' m' e' =>
      -- Only two numbers of one sign compare by their exponents and mantissas.
      cases s <;> cases s'
      case negative.negative =>
        have hplaces := compare_of_sign (-1) (-e) (-(m : ℤ)) (-e') (-(m' : ℤ))
        rw [compare_neg, compare_neg, compare_cast, ← Ordering.swap_then] at hplaces
        exact congrArg some hplaces.symm
      case negative.positive => rfl
      case positive.negative => rfl
      case positive.positive =>
        have hplaces := compare_of_sign 1 e (m : ℤ) e' (m' : ℤ)
        rw [compare_cast] at hplaces
        exact congrArg some hplaces.symm

/-- The place of a double among all. -/
def place (x : Float) : ℤ ×ₗ ℤ ×ₗ ℤ := placeOf x.toModel.unpack

variable {x y : Float}

/-- A finite double is a number. -/
theorem not_nan_of_finite (h : x.isFinite = true) : x.isNaN = false := by
  have hmodel : x.toModel.unpack.isFinite = true := h
  show x.toModel.unpack.isNaN = false
  cases hx : x.toModel.unpack with
  | notANumber =>
    rw [hx] at hmodel
    cases hmodel
  | infinity | zero | finite => rfl

/-- A number is smaller than another one if its place is. -/
theorem lt_iff (hx : x.isNaN = false) (hy : y.isNaN = false) : x < y ↔ place x < place y := by
  have hmodel : x < y ↔ x.toModel.unpack.compare y.toModel.unpack = some .lt := by
    show decide (x.toModel < y.toModel) = true ↔ _
    rw [decide_eq_true_iff]
    exact beq_iff_eq
  rw [hmodel, compare_eq hx hy, Option.some_inj, compare_lt_iff_lt]
  rfl

/-- Likewise for being at most as large. -/
theorem le_iff (hx : x.isNaN = false) (hy : y.isNaN = false) : x ≤ y ↔ place x ≤ place y := by
  have hmodel : x ≤ y ↔ (x.toModel.unpack.compare y.toModel.unpack).any (·.isLE) = true := by
    show decide (x.toModel ≤ y.toModel) = true ↔ _
    rw [decide_eq_true_iff]
    rfl
  rw [hmodel, compare_eq hx hy, Option.any_some, Ordering.isLE_iff_ne_gt]
  exact compare_le_iff_le

/-- Two numbers are equal if they have one place. Both zeros have the same. -/
theorem beq_iff (hx : x.isNaN = false) (hy : y.isNaN = false) : (x == y) = true ↔ place x = place y := by
  have hmodel : (x == y) = (x.toModel.unpack.compare y.toModel.unpack == some .eq) := rfl
  rw [hmodel, beq_iff_eq, compare_eq hx hy, Option.some_inj, compare_eq_iff_eq]
  rfl

/-- `NaN` is not equal to anything. -/
theorem beq_nan (hy : y.isNaN = true) : (x == y) = false := by
  rw [Float.isNaN_eq_decide_eq_nan, decide_eq_true_iff] at hy
  rw [hy]
  exact Float.beq_nan_eq_false x

/-- All sets of doubles without `NaN` are ranked, as doubles compare by their places then. -/
theorem ranks {S : Set Float} (h : ∀ x ∈ S, x.isNaN = false) : Scalar.Ranks S where
  total x hx y hy := by
    rw [le_iff (h x hx) (h y hy), le_iff (h y hy) (h x hx)]
    exact le_total _ _
  trans x hx y hy z hz := by
    rw [le_iff (h x hx) (h y hy), le_iff (h y hy) (h z hz), le_iff (h x hx) (h z hz)]
    exact le_trans
  lt_iff x hx y hy := by
    rw [lt_iff (h x hx) (h y hy), le_iff (h y hy) (h x hx), not_le]

/-! ### Sums of doubles -/

/-- A number that is positive or a zero, of either sign. -/
def Unsigned : UnpackedFloat → Prop
  | .infinity .positive | .zero _ | .finite .positive .. => True
  | _ => False

/-- The doubles that are at least zero are those that are positive or a zero. -/
theorem nonneg_iff : 0 ≤ x ↔ Unsigned x.toModel.unpack := by
  have hmodel : 0 ≤ x
      ↔ ((UnpackedFloat.zero .positive).compare x.toModel.unpack).any (·.isLE) = true := by
    show decide ((0 : Float).toModel ≤ x.toModel) = true ↔ _
    rw [decide_eq_true_iff]
    rfl
  rw [hmodel]
  cases x.toModel.unpack with
  | notANumber => simp [UnpackedFloat.compare, Unsigned]
  | infinity s => cases s <;> simp [UnpackedFloat.compare, Unsigned]
  | zero => simp [UnpackedFloat.compare, Unsigned]
  | finite s => cases s <;> simp [UnpackedFloat.compare, Unsigned]

/-- A double that is at least zero is a number, as `NaN` is not comparable to zero. -/
theorem not_nan_of_nonneg (h : 0 ≤ x) : x.isNaN = false := by
  have hunsigned := nonneg_iff.mp h
  show x.toModel.unpack.isNaN = false
  cases hx : x.toModel.unpack with
  | notANumber =>
    rw [hx] at hunsigned
    cases hunsigned
  | infinity | zero | finite => rfl

/-- Rounding keeps the sign, whatever is rounded away. -/
theorem unsigned_normalize (f : Format) {mantissa : ℤ} (exponent : ℤ) (h : 0 ≤ mantissa) :
    Unsigned (.normalize f mantissa exponent .positive) := by
  rw [UnpackedFloat.normalize]
  split
  case h_1 hlt => exact absurd (compare_lt_iff_lt.mp hlt) (not_lt.mpr h)
  case h_2 => trivial
  case h_3 =>
    rw [UnpackedFloat.round]
    dsimp only [UnpackedFloat.roundWithAccuracy]
    split <;> trivial

/-- Two numbers without a sign add up to one without. The one case with arithmetic in it is that of two
finite positive numbers, whose mantissas are added before anything is rounded. -/
theorem unsigned_add {u v : UnpackedFloat} (f : Format) (hu : Unsigned u) (hv : Unsigned v) :
    Unsigned (u.add f v) := by
  cases u with
  | notANumber => cases hu
  | infinity s =>
    cases s with
    | negative => cases hu
    | positive =>
      cases v with
      | notANumber => cases hv
      | infinity s' => cases s' <;> trivial
      | zero | finite => trivial
  -- A zero adds nothing, but two zeros may add up to either of them.
  | zero s =>
    cases v with
    | notANumber => cases hv
    | zero s' => cases s <;> cases s' <;> trivial
    | infinity | finite => exact hv
  | finite s mantissa exponent =>
    cases s with
    | negative => cases hu
    | positive =>
      cases v with
      | notANumber => cases hv
      | infinity => exact hv
      | zero => trivial
      | finite s' mantissa' exponent' =>
        cases s' with
        | negative => cases hv
        | positive => exact unsigned_normalize f _ (Int.add_nonneg (Int.natCast_nonneg _)
            (Int.natCast_nonneg _))

/-- What is unpacked from a packed number with a positive sign has none, unless its exponent says that
it is no number. -/
theorem unsigned_unpack {f : Format} {e : BitVec f.exponentBits}
    {m : BitVec f.mantissaBitsWithoutImplicit} (h : e = -1#f.exponentBits → m = 0#f.mantissaBitsWithoutImplicit) :
    Unsigned (.unpack f (UnpackedFloat.packComponents f .positive e m)) := by
  rw [UnpackedFloat.unpack]
  simp only [UnpackedFloat.unpackExponent_packComponents, UnpackedFloat.unpackMantissa_packComponents,
    UnpackedFloat.unpackSign_packComponents, UnpackedFloat.Sign.ofBitVec_toBitVec]
  split
  case isTrue he =>
    rw [if_pos (h he)]
    trivial
  case isFalse =>
    split
    · split <;> trivial
    · trivial

/-- A number that has no sign has none after it was stored. What is rounded to infinity on the way
has none either. -/
theorem unsigned_unpack_pack {u : UnpackedFloat} (h : Unsigned u) :
    Unsigned (.unpack .binary64 (UnpackedFloat.pack .binary64 u)) := by
  cases u with
  | notANumber => cases h
  -- Infinities and zeros are stored as such.
  | infinity s =>
    cases s with
    | negative => cases h
    | positive => exact unsigned_unpack fun _ => rfl
  | zero s =>
    show Unsigned (.unpack .binary64 (UnpackedFloat.packedZero .binary64 s))
    rw [UnpackedFloat.unpack_packedZero]
    trivial
  | finite s mantissa exponent =>
    cases s with
    | negative => cases h
    | positive =>
      rw [UnpackedFloat.pack]
      dsimp only
      split
      case isTrue => exact unsigned_unpack fun _ => rfl
      case isFalse hroom =>
        split
        · -- An exponent in range is not the one that says that there is no number.
          refine unsigned_unpack fun he => absurd (congrArg BitVec.toNat he) ?_
          rw [BitVec.toNat_ofNat]
          show _ % 2048 ≠ 2047
          omega
        · exact unsigned_unpack fun he => absurd he (by decide)

instance : Scalar.Ordered Float where
  ranks := ranks fun _ => not_nan_of_nonneg
  zero_le := nonneg_iff.mpr trivial
  add_nonneg _ _ hx hy := nonneg_iff.mpr
    (unsigned_unpack_pack (unsigned_add _ (nonneg_iff.mp hx) (nonneg_iff.mp hy)))

end Double

end TxnPath
