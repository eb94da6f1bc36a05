import TxnPath.Ident
import TxnPath.Json.Basic

/-!
# Reading typed values

A decoder turns a JSON value into a typed one, or refuses it. Whole numbers must be in range and not
be written with a point; a place for a double also takes a whole number. A record is an object with
no field of it named twice, or the list of its fields in declared order.
-/

set_option autoImplicit false

namespace TxnPath.Json

variable {α : Type}

/-- A natural number below a bound. -/
def natBelow? (bound : Nat) : Json → Option Nat
  | .int n => if 0 ≤ n ∧ n < bound then some n.toNat else none
  | _ => none

/-- A 64-bit counter. -/
def word? : Json → Option Nat := natBelow? wordLimit

/-- A 32-bit identifier. -/
def halfWord? : Json → Option Nat := natBelow? halfWordLimit

/-- A signed 64-bit number. -/
def signedWord? : Json → Option Int
  | .int n => if -(wordLimit / 2 : Int) ≤ n ∧ n < wordLimit / 2 then some n else none
  | _ => none

/-- A double. -/
def real? : Json → Option Float
  | .int n => some (Float.ofInt n)
  | .real x => some x
  | _ => none

/-- A truth value. -/
def bool? : Json → Option Bool
  | .bool b => some b
  | _ => none

/-- A text. -/
def str? : Json → Option String
  | .str s => some s
  | _ => none

/-- A value or `null`. -/
def nullable? (decode : Json → Option α) : Json → Option (Option α)
  | .null => some none
  | j => (decode j).map some

/-- A list. -/
def list? (decode : Json → Option α) : Json → Option (List α)
  | .arr items => items.mapM decode
  | _ => none

/-- An object read as a table: the last value of each name, names ascending. -/
def table? (decode : Json → Option α) : Json → Option (List (String × α))
  | .obj fields =>
    (fields.mapM fun (f : String × Json) => (decode f.2).map fun a => (f.1, a)).map lastOfEach
  | _ => none

/-- A pair, written as a list of two. -/
def pair? {β : Type} (first : Json → Option α) (second : Json → Option β) : Json → Option (α × β)
  | .arr [a, b] => do pure (← first a, ← second b)
  | _ => none

/-- Three values, written as a list. -/
def triple? {β γ : Type} (first : Json → Option α) (second : Json → Option β)
    (third : Json → Option γ) : Json → Option (α × β × γ)
  | .arr [a, b, c] => do pure (← first a, ← second b, ← third c)
  | _ => none

/-- One of several words, written as a text or as the one field, `null`, of an object. -/
def variant? : Json → Option String
  | .str s => some s
  | .obj [(s, .null)] => some s
  | _ => none

/-- One of several shapes: the text in the field that tells which, and what is left. In a list the text
comes first. -/
def tagged? (name : String) : Json → Option (String × Json)
  | .obj fields =>
    match fields.filter fun f => f.1 == name with
    | [(_, .str tag)] => some (tag, .obj (fields.filter fun f => f.1 != name))
    | _ => none
  | .arr (.str tag :: rest) => some (tag, .arr rest)
  | _ => none

/-- The fields of a record by name. -/
structure Record where
  /-- The fields that were written. -/
  fields : List (String × Json)
  /-- Whether they were written by position. -/
  positional : Bool

/-- Reads a record with the given field names, in declared order. Unknown fields are ignored. -/
def record? (names : List String) : Json → Option Record
  | .obj fields =>
    if names.any fun name => 1 < (fields.filter fun f => f.1 == name).length then none
    else some ⟨fields, false⟩
  | .arr items => if names.length < items.length then none else some ⟨names.zip items, true⟩
  | _ => none

namespace Record

/-- A field that must be written. -/
def required (r : Record) (name : String) (decode : Json → Option α) : Option α :=
  (r.fields.lookup name).bind decode

/-- A field that takes a default when it is not written. -/
def withDefault (r : Record) (name : String) (decode : Json → Option α) (default : α) : Option α :=
  match r.fields.lookup name with
  | some j => decode j
  | none => some default

/-- A field that may be `null`, and by name may be left out. -/
def nullable (r : Record) (name : String) (decode : Json → Option α) : Option (Option α) :=
  match r.fields.lookup name with
  | some j => nullable? decode j
  | none => if r.positional then none else some none

end Record

end TxnPath.Json
