import TxnPath.Json.Record
import TxnPath.Value

/-!
# Values as JSON

A parameter value is written as plain JSON. A whole number outside the signed 64-bit range is read as
a double; truth values and objects are no values.
-/

set_option autoImplicit false

namespace TxnPath.Value

mutual

/-- A value as JSON. -/
def toJson : Value → Json
  | .null => .null
  | .int n => .int n
  | .real bits => .real (Float.ofBits bits)
  | .str s => .str s
  | .list items => .arr (itemsToJson items)

/-- Values as JSON. -/
def itemsToJson : List Value → List Json
  | [] => []
  | v :: rest => toJson v :: itemsToJson rest

end

mutual

/-- Reads a value. -/
def ofJson? : Json → Option Value
  | .null => some .null
  | .int n =>
    match Json.signedWord? (.int n) with
    | some n => some (.int n)
    | none => some (.real (Float.ofInt n).toBits)
  | .real x => some (.real x.toBits)
  | .str s => some (.str s)
  | .arr items => (itemsOfJson? items).map .list
  | .bool _ | .obj _ => none

/-- Reads values. -/
def itemsOfJson? : List Json → Option (List Value)
  | [] => some []
  | j :: rest =>
    match ofJson? j, itemsOfJson? rest with
    | some v, some vs => some (v :: vs)
    | _, _ => none

end

/-- Reads a list of values. -/
def listOfJson? : Json → Option (List Value) := Json.list? ofJson?

/-- A list of values as JSON. -/
def listToJson (vs : List Value) : Json := .arr (itemsToJson vs)

end TxnPath.Value
