import TxnPath.StableSort

/-!
# JSON values

A value keeps its object fields in order, repeated names included, and tells whole numbers from
numbers written with a point or an exponent, because readers of typed documents do.
-/

set_option autoImplicit false

namespace TxnPath

/-- A JSON value. -/
inductive Json where
  /-- The absent value. -/
  | null
  /-- A truth value. -/
  | bool (value : Bool)
  /-- A number written without point and exponent that fits a machine word. -/
  | int (value : Int)
  /-- Any other number. -/
  | real (value : Float)
  /-- A text. -/
  | str (value : String)
  /-- A list of values. -/
  | arr (items : List Json)
  /-- Named values, in order. -/
  | obj (fields : List (String × Json))
  deriving Inhabited

namespace Json

/-- A natural number. -/
def nat (n : Nat) : Json := .int n

/-- A value or, where there is none, `null`. -/
def option {α : Type} (encode : α → Json) (x : Option α) : Json :=
  match x with
  | some a => encode a
  | none => .null

/-- A list of values. -/
def list {α : Type} (encode : α → Json) (xs : List α) : Json := .arr (xs.map encode)

/-- The last value of each name, names ascending: what remains of an object read as a table. -/
def lastOfEach {α : Type} (fields : List (String × α)) : List (String × α) :=
  stableSort (fun a b => decide (a.1 ≤ b.1))
    (fields.foldl (fun kept field => kept.filter (fun other => other.1 != field.1) ++ [field]) [])

/-- The value of a field of an object; `null` if there is none. -/
def field (j : Json) (name : String) : Json :=
  match j with
  | .obj fields => (fields.lookup name).getD .null
  | _ => .null

/-- An object with fields replaced by those of another; `null` replaces none. -/
def override (j : Json) : Json → Option Json
  | .null => some j
  | .obj changed =>
    match j with
    | .obj fields => some (.obj (changed ++ fields.filter fun f => (changed.lookup f.1).isNone))
    | _ => none
  | _ => none

mutual

/-- Every object within a value reduced to the last value of each name, names ascending. -/
def normalize : Json → Json
  | .arr items => .arr (normalizeItems items)
  | .obj fields => .obj (lastOfEach (normalizeFields fields))
  | j => j

/-- `normalize` on every element of a list. -/
def normalizeItems : List Json → List Json
  | [] => []
  | j :: rest => normalize j :: normalizeItems rest

/-- `normalize` on every value of an object. -/
def normalizeFields : List (String × Json) → List (String × Json)
  | [] => []
  | (name, j) :: rest => (name, normalize j) :: normalizeFields rest

end

end Json

end TxnPath
