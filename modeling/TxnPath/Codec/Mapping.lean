import TxnPath.Json.Record
import TxnPath.Mapping

/-!
# Correlations as JSON

A table of correlations is written as the list of them in the table's order, every field included.
When reading, the occurrence defaults to zero, the element to none and the coefficient to one.
-/

set_option autoImplicit false

namespace TxnPath

namespace Mapping

/-- A mapping as JSON. -/
def toJson (m : Mapping Float) : Json :=
  .obj [("proc", .nat m.procedure), ("stmt", .nat m.statement), ("instance", .nat m.occurrence),
    ("stmt_param", .nat m.slot), ("proc_param", .nat m.argument),
    ("proc_param_index", .option .nat m.element), ("coefficient", .real m.coefficient)]

/-- Reads a mapping. -/
def ofJson? (j : Json) : Option (Mapping Float) := do
  let r ← j.record?
    ["proc", "stmt", "instance", "stmt_param", "proc_param", "proc_param_index", "coefficient"]
  pure
    { procedure := ← r.required "proc" Json.halfWord?
      statement := ← r.required "stmt" Json.halfWord?
      occurrence := ← r.withDefault "instance" Json.halfWord? 0
      slot := ← r.required "stmt_param" Json.word?
      argument := ← r.required "proc_param" Json.word?
      element := ← r.withDefault "proc_param_index" (Json.nullable? Json.word?) none
      coefficient := ← r.withDefault "coefficient" Json.real? 1.0 }

end Mapping

namespace MappingPolicy

/-- The name of a policy. -/
def name : MappingPolicy → String
  | .firstFound => "first_found"
  | .highestCoefficient => "highest_coefficient"

/-- Reads a policy. -/
def ofJson? (j : Json) : Option MappingPolicy :=
  match j.variant? with
  | some "first_found" => some .firstFound
  | some "highest_coefficient" => some .highestCoefficient
  | _ => none

end MappingPolicy

namespace MappingTable

/-- A table as JSON. -/
def toJson (t : MappingTable Float) : Json := .list Mapping.toJson t.toList

/-- Reads a table. -/
def ofJson? (j : Json) : Option (MappingTable Float) := (Json.list? Mapping.ofJson? j).map ofList

end MappingTable

end TxnPath
