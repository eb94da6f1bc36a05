import Mathlib.Data.List.TakeWhile
import TxnPath.Json.Printer
import TxnPath.Json.Reader

/-!
# `TxnPath.Proofs.Json.Scalars`: numbers and texts are read as they were written

What is written of a value stands in front of something else, and reading gives the value and what
stands behind it (`Json.Spells`). For a number this must not begin with another digit, a point or an
exponent (`Json.Ends`), as the number would go on there; commas, brackets and blanks are fine.

A whole number is written in decimal digits without a leading zero, and read as whole if it fits a
word (`spells_int`). A text is written character by character, some of them escaped, and every
character is read back from what stands for it (`spells_text`). A double is read from its text by
rounding more than once, so that this need not give the same double: what it gives is `reread`, wherever
the double stands (`spells_real`).
-/

set_option autoImplicit false

namespace TxnPath.Json

open Text (hexDigit)

variable {α : Type} {c : Char} {rest : List Char}

/-- What may stand behind a number without going on with it. -/
def Ends (rest : List Char) : Prop :=
  ∀ c tail, rest = c :: tail → c.isDigit = false ∧ c ≠ '.' ∧ c ≠ 'e' ∧ c ≠ 'E'

/-- A number may end where the text does. -/
theorem ends_nil : Ends [] := nofun

/-- Or in front of a character that does not continue it. -/
theorem ends_cons (h : c.isDigit = false ∧ c ≠ '.' ∧ c ≠ 'e' ∧ c ≠ 'E') : Ends (c :: rest) := by
  intro c' tail heq
  cases heq
  exact h

/-- No digit follows the number, so that its digits are those that were written. -/
theorem Ends.not_digit (h : Ends rest) :
    rest.takeWhile Char.isDigit = [] ∧ rest.dropWhile Char.isDigit = rest := by
  cases rest with
  | nil => exact ⟨rfl, rfl⟩
  | cons c tail => simp [(h c tail rfl).1]

/-- The digits that a text begins with do not depend on what stands behind it. -/
theorem digits_append (input : List Char) (hrest : Ends rest) :
    (input ++ rest).takeWhile Char.isDigit = input.takeWhile Char.isDigit
      ∧ (input ++ rest).dropWhile Char.isDigit = input.dropWhile Char.isDigit ++ rest := by
  induction input with
  | nil => exact hrest.not_digit
  | cons c input ih =>
    rw [List.cons_append, List.takeWhile_cons, List.takeWhile_cons, List.dropWhile_cons,
      List.dropWhile_cons, ih.1, ih.2]
    split
    · exact ⟨rfl, rfl⟩
    · exact ⟨rfl, rfl⟩

/-- What is written in front of something is read as a value. It begins like a value, and not
like the end of a list or of an object. -/
structure Spells (read : List Char → Option (α × List Char)) (write : List Char → List Char)
    (a : α) : Prop where
  reads : ∀ {rest}, Ends rest → read (write rest) = some (a, rest)
  starts : ∀ rest, ∃ c tail, write rest = c :: tail ∧ isBlank c = false ∧ c ≠ ']' ∧ c ≠ '\x7d'
  grows : ∀ rest, rest.length < (write rest).length

/-! ### Whole numbers -/

/-- The value of decimal digits. -/
theorem naturalOf_eq (digits : List Char) : naturalOf digits = Nat.ofDigitChars 10 digits 0 := by
  simp only [naturalOf, Nat.ofDigitChars, digitValue, Nat.mul_comm 10]

/-- The digits of a number have the number for their value. -/
theorem naturalOf_toDigits (n : Nat) : naturalOf (Nat.toDigits 10 n) = n := by
  rw [naturalOf_eq, Nat.ofDigitChars_toDigits (by decide) (by decide)]

/-- Every number has a digit. -/
theorem toDigits_ne_nil (n : Nat) : Nat.toDigits 10 n ≠ [] := by
  rcases Nat.lt_or_ge n 10 with h | h
  · simp [Nat.toDigits_of_lt_base h]
  · simp [Nat.toDigits_of_base_le (by decide) h]

/-- A number that is not zero has no leading zero. -/
theorem head?_toDigits {n : Nat} (hn : 0 < n) : (Nat.toDigits 10 n).head? ≠ some '0' := by
  induction n using Nat.strongRecOn with
  | ind n ih =>
    rcases Nat.lt_or_ge n 10 with h | h
    · rw [Nat.toDigits_of_lt_base h]
      intro hzero
      have hchar : ∀ m < 10, 0 < m → m.digitChar ≠ '0' := by decide
      exact hchar n h hn (Option.some.inj hzero)
    · have hhead := ih (n / 10) (by omega) (by omega)
      obtain ⟨c, tail, hcons⟩ := List.exists_cons_of_ne_nil (toDigits_ne_nil (n / 10))
      rw [Nat.toDigits_of_base_le (by decide) h]
      rw [hcons] at hhead ⊢
      exact hhead

/-- A number has a leading zero only if it has no other digit. -/
theorem head?_toDigits_of_length {n : Nat} (h : 1 < (Nat.toDigits 10 n).length) :
    (Nat.toDigits 10 n).head? ≠ some '0' := by
  rcases Nat.eq_zero_or_pos n with rfl | hn
  · exact absurd h (by decide)
  · exact head?_toDigits hn

/-- Digits are read up to what stands behind them. What stands behind must not go on with a number,
which is what `Ends` says. -/
theorem readUnsigned_toDigits {n : Nat} {negative : Bool} (hrest : Ends rest) :
    readUnsigned negative (Nat.toDigits 10 n ++ rest)
      = (wholeOf negative (Nat.toDigits 10 n)).map fun j => (j, rest) := by
  have hdigits : ∀ c ∈ Nat.toDigits 10 n, c.isDigit = true := fun c hc =>
    Nat.isDigit_of_mem_toDigits (by decide) (by decide) hc
  -- The digits end where the number does, as no digit stands behind it.
  obtain ⟨htake, hdrop⟩ := digits_append (Nat.toDigits 10 n) hrest
  have hwhole : (Nat.toDigits 10 n ++ rest).takeWhile Char.isDigit = Nat.toDigits 10 n :=
    htake.trans (List.takeWhile_eq_self_iff.mpr hdigits)
  have hafter : (Nat.toDigits 10 n ++ rest).dropWhile Char.isDigit = rest := by
    rw [hdrop, List.dropWhile_eq_nil_iff.mpr hdigits, List.nil_append]
  have hplain : ¬ ((Nat.toDigits 10 n).isEmpty = true
      ∨ (1 < (Nat.toDigits 10 n).length ∧ (Nat.toDigits 10 n).head? = some '0')) := by
    rintro (hempty | ⟨hlong, hzero⟩)
    · exact toDigits_ne_nil n (List.isEmpty_iff.mp hempty)
    · exact head?_toDigits_of_length hlong hzero
  rw [readUnsigned, hwhole, hafter, if_neg hplain]
  -- The number is over: there is no point and no exponent.
  split
  case h_1 => exact absurd rfl (hrest _ _ rfl).2.1
  case h_2 => exact absurd rfl (hrest _ _ rfl).2.2.1
  case h_3 => exact absurd rfl (hrest _ _ rfl).2.2.2
  case h_4 => rfl

/-- A whole number fits a word, with or without a sign. -/
def FitsWord (n : Int) : Prop := -(wordLimit / 2 : Nat) ≤ n ∧ n < wordLimit

/-- A number that is not negative is written by its digits alone. -/
theorem writeInt_nat (n : Nat) : writeInt n rest = Nat.toDigits 10 n ++ rest := by
  show (Int.repr n).toList ++ rest = _
  rw [Int.repr_eq_if, if_pos (Int.natCast_nonneg n), Int.toNat_natCast, Nat.toList_repr]

/-- A negative one has its sign in front of them. -/
theorem writeInt_negative {n : Nat} (h : 0 < n) :
    writeInt (-n) rest = '-' :: (Nat.toDigits 10 n ++ rest) := by
  show (Int.repr (-n)).toList ++ rest = _
  rw [Int.repr_eq_if, if_neg (by omega), Int.neg_neg, Int.toNat_natCast, String.toList_append,
    Nat.toList_repr]
  rfl

/-- A character that no digit is. -/
theorem ne_of_isDigit {d : Char} (hc : c.isDigit = true) (hd : d.isDigit = false) : c ≠ d := by
  rintro rfl
  rw [hc] at hd
  cases hd

/-- A digit is not skipped as a blank. -/
theorem not_blank_of_isDigit (hc : c.isDigit = true) : isBlank c = false := by
  simp [isBlank, ne_of_isDigit hc (d := ' ') rfl, ne_of_isDigit hc (d := '\n') rfl,
    ne_of_isDigit hc (d := '\t') rfl, ne_of_isDigit hc (d := '\r') rfl]

/-- What begins with a digit is read as a number. -/
theorem readScalar?_digit (hc : c.isDigit = true) :
    readScalar? (c :: rest) = readUnsigned false (c :: rest) := by
  rw [readScalar?, if_neg (ne_of_isDigit hc rfl), if_neg (ne_of_isDigit hc rfl),
    if_neg (ne_of_isDigit hc rfl), if_neg (ne_of_isDigit hc rfl), readNumber]
  intro tail heq
  cases heq
  exact absurd hc (by decide)

/-- The text of a number begins with a digit. -/
theorem starts_toDigits (n : Nat) (rest : List Char) :
    ∃ c tail, Nat.toDigits 10 n ++ rest = c :: tail ∧ c.isDigit = true := by
  obtain ⟨c, tail, hcons⟩ := List.exists_cons_of_ne_nil (toDigits_ne_nil n)
  refine ⟨c, tail ++ rest, by rw [hcons]; rfl, ?_⟩
  exact Nat.isDigit_of_mem_toDigits (b := 10) (n := n) (by decide) (by decide)
    (hcons ▸ List.mem_cons_self)

/-- Whole numbers are read as they were written, if they fit a word. Others are written in full but
read as doubles. -/
theorem spells_int {n : Int} (h : FitsWord n) : Spells readScalar? (writeInt n) (.int n) := by
  obtain ⟨hlow, hhigh⟩ := h
  by_cases hneg : n < 0
  -- The sign is read first and goes back on in the end. Without one, the first digit decides.
  · obtain ⟨m, rfl⟩ : ∃ m : Nat, n = -m := ⟨n.natAbs, by omega⟩
    have hm : 0 < m := by omega
    refine ⟨fun {rest} hrest => ?_, fun rest => ?_, fun rest => ?_⟩
    · rw [writeInt_negative hm]
      show readUnsigned true (Nat.toDigits 10 m ++ rest) = _
      rw [readUnsigned_toDigits hrest, wholeOf, naturalOf_toDigits]
      rw [if_pos rfl, if_pos ⟨hm, by omega⟩]
      rfl
    · exact ⟨'-', _, writeInt_negative hm, by decide, by decide, by decide⟩
    · rw [writeInt_negative hm, List.length_cons, List.length_append]
      omega
  · obtain ⟨m, rfl⟩ := Int.eq_ofNat_of_zero_le (Int.not_lt.mp hneg)
    refine ⟨fun {rest} hrest => ?_, fun rest => ?_, fun rest => ?_⟩
    · obtain ⟨c, tail, hcons, hc⟩ := starts_toDigits m rest
      rw [writeInt_nat, hcons, readScalar?_digit hc, ← hcons, readUnsigned_toDigits hrest, wholeOf,
        naturalOf_toDigits]
      rw [if_neg Bool.false_ne_true, if_pos (by omega)]
      rfl
    · obtain ⟨c, tail, hcons, hc⟩ := starts_toDigits m rest
      exact ⟨c, tail, by rw [writeInt_nat, hcons], not_blank_of_isDigit hc, ne_of_isDigit hc rfl,
        ne_of_isDigit hc rfl⟩
    · have hlength := List.length_pos_iff.mpr (toDigits_ne_nil m)
      rw [writeInt_nat, List.length_append]
      omega

/-! ### Texts -/

/-- Reading a hexadecimal digit gives the value that it was written for. -/
theorem hexValue?_hexDigit : ∀ n < 16, hexValue? (hexDigit n) = some n := by decide

/-- A numbered escape of a control character. -/
theorem readNumbered?_control (hc : c.toNat < 0x20) :
    readNumbered? ('0' :: '0' :: hexDigit (c.toNat / 16) :: hexDigit (c.toNat % 16) :: rest)
      = some (c, rest) := by
  have hzero : hexValue? '0' = some 0 := rfl
  have hhigh := hexValue?_hexDigit (c.toNat / 16) (by omega)
  have hlow := hexValue?_hexDigit (c.toNat % 16) (by omega)
  have hunit : readUnit? ('0' :: '0' :: hexDigit (c.toNat / 16) :: hexDigit (c.toNat % 16) :: rest)
      = some (c.toNat, rest) := by
    simp only [readUnit?, hzero, hhigh, hlow, Option.bind_eq_bind, Option.bind_some, Option.pure_def]
    congr 2
    omega
  rw [readNumbered?, hunit]
  simp only [Option.bind_eq_bind, Option.bind_some]
  rw [if_pos (.inl (by omega)), Char.ofNat_toNat]
  rfl

/-- Every character is read back from what stands for it within a text. Quotes, backslashes and
control characters are escaped, all others stand for themselves, and no escape begins like another.
-/
theorem readText?_escape (c : Char) (fuel : Nat) (read rest : List Char) :
    readText? (fuel + 1) read (escape c ++ rest) = readText? fuel (c :: read) rest := by
  have hescaped : ∀ {x : Char} {tail : List Char}, readEscape? (x :: tail) = some (c, rest) →
      readText? (fuel + 1) read ('\\' :: x :: tail) = readText? fuel (c :: read) rest := by
    intro x tail h
    rw [readText?, if_neg (by decide), if_pos rfl, h]
    rfl
  -- One case for each escape there is, in the order in which they are tried.
  rw [escape]
  split
  case isTrue h => exact hescaped (by rw [h]; rfl)
  split
  case isTrue h => exact hescaped (by rw [h]; rfl)
  split
  case isTrue h => exact hescaped (by rw [h]; rfl)
  split
  case isTrue h => exact hescaped (by rw [h]; rfl)
  split
  case isTrue h => exact hescaped (by rw [h]; rfl)
  split
  case isTrue h => exact hescaped (by rw [h]; rfl)
  split
  case isTrue h => exact hescaped (by rw [h]; rfl)
  split
  case isTrue hcontrol => exact hescaped (readNumbered?_control hcontrol)
  case isFalse hquote hslash _ _ _ _ _ hplain =>
    -- Any other character stands for itself, and is not taken for a quote or an escape.
    show readText? (fuel + 1) read (c :: rest) = _
    rw [readText?, if_neg hquote, if_neg hslash, if_neg hplain]

/-- Every character is written as something. -/
theorem escape_ne_nil (c : Char) : escape c ≠ [] := by
  rw [escape]
  repeat' split
  all_goals exact List.cons_ne_nil _ _

/-- The characters of a text as they stand within it, up to its closing quote. -/
def quoted (cs rest : List Char) : List Char :=
  cs.foldr (fun c tail => escape c ++ tail) ('"' :: rest)

/-- A text is written between quotation marks. -/
theorem writeText_eq (s : String) (rest : List Char) :
    writeText s rest = '"' :: quoted s.toList rest := rfl

/-- What is written of a text is longer than the text, so that a reader with as much fuel comes to
its end. -/
theorem length_quoted (cs rest : List Char) :
    cs.length + rest.length < (quoted cs rest).length := by
  induction cs with
  | nil => simp [quoted]
  | cons c cs ih =>
    have hescape := List.length_pos_iff.mpr (escape_ne_nil c)
    show cs.length + 1 + rest.length < (escape c ++ quoted cs rest).length
    rw [List.length_append]
    omega

/-- Characters are read one by one up to the closing quote. -/
theorem readText?_quoted {fuel : Nat} {cs : List Char} (read rest : List Char)
    (h : cs.length < fuel) :
    readText? fuel read (quoted cs rest) = some (String.ofList (read.reverse ++ cs), rest) := by
  induction cs generalizing fuel read with
  | nil =>
    obtain ⟨fuel, rfl⟩ := Nat.exists_eq_succ_of_ne_zero (Nat.ne_of_gt h)
    rw [quoted, List.foldr_nil, readText?, if_pos rfl, List.append_nil]
  | cons c cs ih =>
    rw [List.length_cons] at h
    obtain ⟨fuel, rfl⟩ := Nat.exists_eq_succ_of_ne_zero (n := fuel) (by omega)
    show readText? (fuel + 1) read (escape c ++ quoted cs rest) = _
    rw [readText?_escape, ih (c :: read) (by omega), List.reverse_cons, List.append_assoc]
    rfl

/-- A text is read back from what was written between its marks. -/
theorem readQuoted?_quoted (s : String) (rest : List Char) :
    readQuoted? (quoted s.toList rest) = some (s, rest) := by
  have hlength := length_quoted s.toList rest
  rw [readQuoted?, readText?_quoted [] rest (by omega), List.reverse_nil, List.nil_append,
    String.ofList_toList]

/-- Texts are read as they were written. -/
theorem spells_text (s : String) : Spells readScalar? (writeText s) (.str s) where
  reads := fun {rest} _ => by
    rw [writeText_eq, readScalar?, if_pos rfl, readQuoted?_quoted]
    rfl
  starts := fun rest => ⟨'"', _, writeText_eq s rest, by decide, by decide, by decide⟩
  grows := fun rest => by
    have hlength := length_quoted s.toList rest
    rw [writeText_eq, List.length_cons]
    omega

/-! ### Words -/

/-- A word is read as it was written. -/
theorem readWord?_append (word : String) (j : Json) (rest : List Char) :
    readWord? word j (word.toList ++ rest) = some (j, rest) := by
  rw [readWord?, if_pos (List.isPrefixOf_iff_prefix.mpr (List.prefix_append _ _)),
    ← String.length_toList, List.drop_left]

/-- A word that its first letter tells is spelled by its letters. -/
theorem spells_word {word : String} {j : Json} {cs : List Char} (hword : word.toList = c :: cs)
    (hread : ∀ input, readScalar? (c :: input) = readWord? word j (c :: input))
    (hstart : isBlank c = false ∧ c ≠ ']' ∧ c ≠ '\x7d') :
    Spells readScalar? (word.toList ++ ·) j where
  reads := fun {rest} _ => by
    have hwritten : word.toList ++ rest = c :: (cs ++ rest) := by rw [hword]; rfl
    show readScalar? (word.toList ++ rest) = _
    rw [hwritten, hread, ← hwritten, readWord?_append]
  starts := fun rest => ⟨c, cs ++ rest, by rw [hword]; rfl, hstart⟩
  grows := fun rest => by
    show rest.length < (word.toList ++ rest).length
    rw [List.length_append, hword, List.length_cons]
    omega

/-- The word for nothing. -/
theorem spells_null : Spells readScalar? ("null".toList ++ ·) .null :=
  spells_word rfl (fun _ => rfl) (by decide)

/-- The two words for truth values. -/
theorem spells_bool (b : Bool) :
    Spells readScalar? ((if b then "true" else "false").toList ++ ·) (.bool b) := by
  cases b with
  | true => exact spells_word rfl (fun _ => rfl) (by decide)
  | false => exact spells_word rfl (fun _ => rfl) (by decide)

/-! ### Doubles -/

/-- What a double is read as when it has been written. -/
def reread (x : Float) : Option Float :=
  match readScalar? (writeReal x []) with
  | some (.real y, []) => some y
  | _ => none

/-- Whether an exponent has a sign is seen from its first character, whatever follows. It takes a
first character, as an empty exponent would take its sign from what follows. -/
theorem exponentSign_cons (c : Char) (input rest : List Char) :
    exponentSign (c :: input ++ rest)
      = ((exponentSign (c :: input)).1, (exponentSign (c :: input)).2 ++ rest) := by
  rw [List.cons_append]
  unfold exponentSign
  split
  case h_1 heq =>
    cases heq
    rfl
  case h_2 heq =>
    cases heq
    rfl
  -- There is no sign, with or without what follows.
  case h_3 hminus hplus =>
    split
    case h_1 heq =>
      cases heq
      exact absurd rfl (hminus _)
    case h_2 heq =>
      cases heq
      exact absurd rfl (hplus _)
    case h_3 => rfl

/-- An exponent that is read to its end is read in front of what cannot go on with it. -/
theorem readExponent_append {input : List Char} {n : Int} (h : readExponent input = some (n, []))
    (hrest : Ends rest) : readExponent (input ++ rest) = some (n, rest) := by
  cases input with
  | nil => cases h
  | cons c input =>
    obtain ⟨htake, hdrop⟩ := digits_append (exponentSign (c :: input)).2 hrest
    rw [readExponent] at h ⊢
    rw [exponentSign_cons]
    dsimp only at h ⊢
    rw [htake, hdrop]
    split at h
    case h_1 => cases h
    case h_2 =>
      obtain ⟨hn, htail⟩ := Prod.mk.inj (Option.some.inj h)
      rw [htail, ← hn]
      rfl

section Append

variable {negative : Bool} {whole places input : List Char} {j : Json}

/-- An exponent that was read to its end is read in front of something else. -/
theorem readScaled_append (h : readScaled negative whole places input = some (j, []))
    (hrest : Ends rest) : readScaled negative whole places (input ++ rest) = some (j, rest) := by
  obtain ⟨⟨n, tail⟩, hexponent, hreal⟩ := Option.bind_eq_some_iff.mp h
  obtain ⟨x, hx, hpair⟩ := Option.map_eq_some_iff.mp hreal
  obtain ⟨hj, htail⟩ := Prod.mk.inj hpair
  rw [htail] at hexponent
  rw [readScaled, readExponent_append hexponent hrest, Option.bind_some]
  dsimp only
  rw [hx, Option.map_some, hj]

/-- So are decimal places, with the exponent behind them. If there is no exponent, then what follows
must not look like one. -/
theorem readPlaces_append (h : readPlaces negative whole input = some (j, []))
    (hrest : Ends rest) : readPlaces negative whole (input ++ rest) = some (j, rest) := by
  obtain ⟨htake, hdrop⟩ := digits_append input hrest
  rw [readPlaces] at h ⊢
  rw [htake, hdrop]
  split at h
  case isTrue => cases h
  case isFalse hplaces =>
    rw [if_neg hplaces]
    -- Behind the digits comes an exponent or the end.
    generalize input.dropWhile Char.isDigit = after at h ⊢
    split at h
    case h_1 => exact readScaled_append h hrest
    case h_2 => exact readScaled_append h hrest
    case h_3 =>
      obtain ⟨x, hx, hpair⟩ := Option.map_eq_some_iff.mp h
      obtain ⟨hj, htail⟩ := Prod.mk.inj hpair
      rw [htail, List.nil_append]
      split
      case h_1 => exact absurd rfl (hrest _ _ rfl).2.2.1
      case h_2 => exact absurd rfl (hrest _ _ rfl).2.2.2
      case h_3 => rw [hx, Option.map_some, hj]

/-- A number that is read to its end is read in front of what cannot go on with it. That is what
makes it possible to tell how a number is read from how it is read alone. -/
theorem readUnsigned_append (h : readUnsigned negative input = some (j, [])) (hrest : Ends rest) :
    readUnsigned negative (input ++ rest) = some (j, rest) := by
  obtain ⟨htake, hdrop⟩ := digits_append input hrest
  rw [readUnsigned] at h ⊢
  rw [htake, hdrop]
  split at h
  case isTrue => cases h
  case isFalse hplain =>
    rw [if_neg hplain]
    -- Behind the digits come a point, an exponent, or the end.
    generalize input.dropWhile Char.isDigit = after at h ⊢
    split at h
    case h_1 => exact readPlaces_append h hrest
    case h_2 => exact readScaled_append h hrest
    case h_3 => exact readScaled_append h hrest
    case h_4 =>
      obtain ⟨j', hj, hpair⟩ := Option.map_eq_some_iff.mp h
      obtain ⟨rfl, htail⟩ := Prod.mk.inj hpair
      rw [htail, List.nil_append]
      split
      case h_1 => exact absurd rfl (hrest _ _ rfl).2.1
      case h_2 => exact absurd rfl (hrest _ _ rfl).2.2.1
      case h_3 => exact absurd rfl (hrest _ _ rfl).2.2.2
      case h_4 => rw [hj, Option.map_some]

end Append

/-- A number begins with a digit. -/
theorem starts_of_readUnsigned {negative : Bool} {input : List Char} {x : Json × List Char}
    (h : readUnsigned negative input = some x) : ∃ c tail, input = c :: tail ∧ c.isDigit = true := by
  cases input with
  | nil => cases h
  | cons c tail =>
    refine ⟨c, tail, rfl, ?_⟩
    by_contra hc
    have hempty : (c :: tail).takeWhile Char.isDigit = [] := List.takeWhile_cons_of_neg hc
    rw [readUnsigned, hempty] at h
    cases h

/-- A word does not stand for a number. -/
theorem readWord?_ne_real {word : String} {j : Json} {input after : List Char} {x : Float}
    (hj : j ≠ .real x) : readWord? word j input ≠ some (.real x, after) := by
  intro h
  rw [readWord?] at h
  split at h
  · cases h
    exact hj rfl
  · cases h

/-- A double begins with a minus or a digit. Texts and the three words begin otherwise, and give no
double. -/
theorem readUnsigned_of_readScalar? {input after : List Char} {x : Float}
    (h : readScalar? (c :: input) = some (.real x, after)) :
    c = '-' ∧ readUnsigned true input = some (.real x, after)
      ∨ c.isDigit = true ∧ readUnsigned false (c :: input) = some (.real x, after) := by
  rw [readScalar?] at h
  split at h
  · obtain ⟨_, _, hpair⟩ := Option.map_eq_some_iff.mp h
    cases hpair
  split at h
  · exact absurd h (readWord?_ne_real nofun)
  split at h
  · exact absurd h (readWord?_ne_real nofun)
  split at h
  · exact absurd h (readWord?_ne_real nofun)
  -- It was no text and none of the three words, so it was a number.
  rw [readNumber.eq_def] at h
  split at h
  case h_1 heq =>
    cases heq
    exact .inl ⟨rfl, h⟩
  case h_2 =>
    obtain ⟨c', tail, heq, hdigit⟩ := starts_of_readUnsigned h
    cases heq
    exact .inr ⟨hdigit, h⟩

/-- What stands behind a double is not looked at while it is written. -/
theorem writeReal_append (x : Float) (rest : List Char) :
    writeReal x rest = writeReal x [] ++ rest := by
  unfold writeReal
  split
  · rw [List.append_nil]
  · rw [List.append_nil]

/-- A written double is read as `reread` says, whatever stands behind it. Nothing is said of what
that is: how doubles are written and read is left to the functions for decimals, and only the shape
of their texts is used. -/
theorem spells_real {x y : Float} (h : reread x = some y) :
    Spells readScalar? (writeReal x) (.real y) := by
  have hread : readScalar? (writeReal x []) = some (.real y, []) := by
    rw [reread] at h
    split at h
    case h_1 heq =>
      cases h
      exact heq
    case h_2 => cases h
  obtain ⟨c, input, htext⟩ : ∃ c input, writeReal x [] = c :: input := by
    cases htext : writeReal x [] with
    | nil =>
      rw [htext] at hread
      cases hread
    | cons c input => exact ⟨c, input, rfl⟩
  have hwrite : ∀ rest, writeReal x rest = c :: (input ++ rest) := fun rest => by
    rw [writeReal_append, htext, List.cons_append]
  rw [htext] at hread
  -- The text of the double begins with its sign or with a digit, and goes on as it does when it is
  -- written alone.
  have hcases := readUnsigned_of_readScalar? hread
  refine ⟨fun {rest} hrest => ?_, fun rest => ⟨c, _, hwrite rest, ?_⟩, fun rest => ?_⟩
  · rw [hwrite]
    rcases hcases with ⟨rfl, hunsigned⟩ | ⟨hdigit, hunsigned⟩
    · exact readUnsigned_append hunsigned hrest
    · rw [readScalar?_digit hdigit]
      exact readUnsigned_append hunsigned hrest
  · rcases hcases with ⟨rfl, _⟩ | ⟨hdigit, _⟩
    · decide
    · exact ⟨not_blank_of_isDigit hdigit, ne_of_isDigit hdigit rfl, ne_of_isDigit hdigit rfl⟩
  · rw [hwrite, List.length_cons, List.length_append]
    omega

end TxnPath.Json
