import TxnPath.Codec.Value
import TxnPath.Work.Task

/-!
# Units of work as JSON
-/

set_option autoImplicit false

namespace TxnPath

namespace ResultTable

/-- A result table as JSON. -/
def toJson (t : ResultTable) : Json :=
  .obj [("columns", .list .str t.columns), ("rows", .list Value.listToJson t.rows)]

/-- Reads a result table. -/
def ofJson? (j : Json) : Option ResultTable := do
  let r ← j.record? ["columns", "rows"]
  pure
    { columns := ← r.required "columns" (Json.list? Json.str?)
      rows := ← r.required "rows" (Json.list? Value.listOfJson?) }

end ResultTable

namespace Fragment

/-- A fragment as JSON. -/
def toJson (f : Fragment) : Json :=
  .obj [("fragment_id", .nat f.id), ("stmt", .nat f.statement), ("stmt_index", .nat f.index),
    ("input_dep", .option .nat f.input), ("output_dep", .option .nat f.output),
    ("params", Value.listToJson f.params)]

/-- Reads a fragment. -/
def ofJson? (j : Json) : Option Fragment := do
  let r ← j.record? ["fragment_id", "stmt", "stmt_index", "input_dep", "output_dep", "params"]
  pure
    { id := ← r.required "fragment_id" Json.word?
      statement := ← r.required "stmt" Json.halfWord?
      index := ← r.required "stmt_index" Json.word?
      input := ← r.nullable "input_dep" Json.halfWord?
      output := ← r.nullable "output_dep" Json.halfWord?
      params := ← r.withDefault "params" Value.listOfJson? [] }

end Fragment

namespace Task

/-- A task as JSON. -/
def toJson (t : Task) : Json :=
  .obj [("task_id", .nat t.id), ("txn_id", .nat t.txn), ("destination", .nat t.destination),
    ("fragments", .list Fragment.toJson t.fragments)]

/-- Reads a task. -/
def ofJson? (j : Json) : Option Task := do
  let r ← j.record? ["task_id", "txn_id", "destination", "fragments"]
  pure
    { id := ← r.required "task_id" Json.word?
      txn := ← r.required "txn_id" Json.word?
      destination := ← r.required "destination" Json.halfWord?
      fragments := ← r.required "fragments" (Json.list? Fragment.ofJson?) }

end Task

end TxnPath
