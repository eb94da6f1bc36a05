import TxnPath.Json.Record
import TxnPath.Proofs.Json.Values

/-!
# `TxnPath.Proofs.Json.Record`: typed values and their JSON

Decoders undo encoders on values in range (`word?_nat`, `list?_list`), and give values in range only
(`lt_of_natBelow?`). Fields of a record are decoded one by one: `Record.required_of_lookup` and
`Record.withDefault_of_lookup` say what is read of a field that was written.
-/

set_option autoImplicit false

namespace TxnPath.Json

variable {α : Type} {n bound depth : Nat} {j : Json} {encode : α → Json} {decode : Json → Option α}
  {a default : α} {xs : List α}

/-! ### Numbers -/

/-- A number below the bound is read as it was written. -/
theorem natBelow?_nat (h : n < bound) : natBelow? bound (.nat n) = some n := by
  rw [Json.nat, natBelow?, if_pos ⟨Int.natCast_nonneg n, by omega⟩, Int.toNat_natCast]

/-- Only numbers below the bound are read. -/
theorem lt_of_natBelow? (h : natBelow? bound j = some n) : n < bound := by
  rw [natBelow?.eq_def] at h
  split at h
  case h_1 m =>
    split at h
    case isTrue hm =>
      cases h
      omega
    case isFalse => cases h
  case h_2 => cases h

/-- The case of words. -/
theorem word?_nat (h : n < wordLimit) : word? (.nat n) = some n := natBelow?_nat h

/-- The case of half words. -/
theorem halfWord?_nat (h : n < halfWordLimit) : halfWord? (.nat n) = some n := natBelow?_nat h

/-- A number of the size of a word is plain: it is written in digits, and read as whole. -/
theorem plain_nat (depth : Nat) (h : n < wordLimit) : Plain depth (.nat n) :=
  .int depth ⟨by omega, by omega⟩

/-- So is one of the size of half a word. -/
theorem plain_half (depth : Nat) (h : n < halfWordLimit) : Plain depth (.nat n) :=
  plain_nat depth (Nat.lt_trans h (by decide))

/-! ### Lists -/

/-- A list is read element by element as it was written. -/
theorem list?_list (h : ∀ x ∈ xs, decode (encode x) = some x) :
    list? decode (list encode xs) = some xs := by
  rw [list, list?]
  induction xs with
  | nil => rfl
  | cons x xs ih =>
    obtain ⟨hx, hxs⟩ := List.forall_mem_cons.mp h
    rw [List.map_cons, List.mapM_cons, hx, ih hxs]
    rfl

/-- Every element of a list that is read was decoded. So what decoding gives holds of all elements.
-/
theorem exists_of_mem_list? (h : list? decode j = some xs) : ∀ x ∈ xs, ∃ j', decode j' = some x := by
  cases j with
  | arr items =>
    rw [list?] at h
    induction items generalizing xs with
    | nil =>
      cases h
      exact nofun
    | cons j' items ih =>
      simp only [List.mapM_cons, Option.bind_eq_bind, Option.bind_eq_some_iff, Option.pure_def,
        Option.some_inj] at h
      obtain ⟨x, hx, xs', hxs, rfl⟩ := h
      exact List.forall_mem_cons.mpr ⟨⟨j', hx⟩, ih hxs⟩
  | null | bool | int | real | str | obj => cases h

/-- It is nested one deeper than its elements. -/
theorem plain_list (h : ∀ x ∈ xs, Plain depth (encode x)) : Plain (depth + 1) (list encode xs) :=
  .arr fun _ hj =>
    have ⟨x, hx, heq⟩ := List.mem_map.mp hj
    heq ▸ h x hx

/-- It is reread if each of its elements is. -/
theorem rereads_list {encode' : α → Json} (h : ∀ x ∈ xs, Rereads depth (encode x) (encode' x)) :
    Rereads (depth + 1) (list encode xs) (list encode' xs) := by
  have hitems := @Rereads.arr depth (xs.map fun x => (encode x, encode' x))
    (List.forall_mem_map.mpr h)
  rw [List.map_map, List.map_map] at hitems
  exact hitems

/-! ### Fields -/

namespace Record

variable {r : Record} {name : String}

/-- A required field that was written is read. -/
theorem required_of_lookup (hj : r.fields.lookup name = some j) (h : decode j = some a) :
    r.required name decode = some a := by
  rw [required, hj]
  exact h

/-- So is a field with a default, which does not come in where the field was written. -/
theorem withDefault_of_lookup (hj : r.fields.lookup name = some j) (h : decode j = some a) :
    r.withDefault name decode default = some a := by
  rw [withDefault, hj]
  exact h

/-- What is read of a required field was decoded from something. -/
theorem exists_of_required (h : r.required name decode = some a) : ∃ j, decode j = some a :=
  have ⟨j, _, hj⟩ := Option.bind_eq_some_iff.mp h
  ⟨j, hj⟩

/-- A required field that is a number is below its bound. -/
theorem lt_of_required (h : r.required name (natBelow? bound) = some n) : n < bound :=
  have ⟨_, hj⟩ := exists_of_required h
  lt_of_natBelow? hj

/-- What holds of everything that is decoded holds of the elements of a list. -/
theorem forall_mem_of_required {P : α → Prop} (h : r.required name (list? decode) = some xs)
    (hdecode : ∀ {j x}, decode j = some x → P x) : ∀ x ∈ xs, P x := by
  obtain ⟨_, hxs⟩ := exists_of_required h
  intro x hx
  obtain ⟨_, hj⟩ := exists_of_mem_list? hxs x hx
  exact hdecode hj

/-- What is read of a field with a default was decoded, or is the default. -/
theorem exists_of_withDefault (h : r.withDefault name decode default = some a) :
    a = default ∨ ∃ j, decode j = some a := by
  rw [withDefault] at h
  split at h
  · exact .inr ⟨_, h⟩
  · cases h
    exact .inl rfl

end Record

end TxnPath.Json
