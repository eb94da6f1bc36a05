import TxnPath.Catalog
import TxnPath.Json.Record

/-!
# Catalogs as JSON

Every field is written. When reading, lists default to none and flags to false.
-/

set_option autoImplicit false

namespace TxnPath

/-- The name of a query type. -/
def QueryType.name : QueryType → String
  | .select => "select"
  | .insert => "insert"
  | .update => "update"
  | .delete => "delete"

/-- The query type of a name. -/
def QueryType.ofName? : String → Option QueryType
  | "select" => some .select
  | "insert" => some .insert
  | "update" => some .update
  | "delete" => some .delete
  | _ => none

/-- A query type as JSON. -/
def QueryType.toJson (t : QueryType) : Json := .str t.name

/-- Reads a query type. -/
def QueryType.ofJson? (j : Json) : Option QueryType := j.variant?.bind QueryType.ofName?

/-- A column as JSON. -/
def ColumnRef.toJson (c : ColumnRef) : Json := .obj [("table", .str c.table), ("column", .str c.column)]

/-- Reads a column. -/
def ColumnRef.ofJson? (j : Json) : Option ColumnRef := do
  let r ← j.record? ["table", "column"]
  pure ⟨← r.required "table" Json.str?, ← r.required "column" Json.str?⟩

namespace Statement

/-- Reads the column of a statement parameter. -/
def paramOfJson? (j : Json) : Option (Option ColumnRef) := do
  let r ← j.record? ["column"]
  r.withDefault "column" (Json.nullable? ColumnRef.ofJson?) none

/-- A statement as JSON. -/
def toJson (s : Statement) : Json :=
  .obj [("id", .nat s.id), ("name", .str s.name), ("query_type", s.queryType.toJson),
    ("tables", .list .str s.tables),
    ("params", .list (fun c => .obj [("column", .option ColumnRef.toJson c)]) s.params)]

/-- Reads a statement. -/
def ofJson? (j : Json) : Option Statement := do
  let r ← j.record? ["id", "name", "query_type", "tables", "params"]
  pure
    { id := ← r.required "id" Json.halfWord?
      name := ← r.required "name" Json.str?
      queryType := ← r.required "query_type" QueryType.ofJson?
      tables := ← r.withDefault "tables" (Json.list? Json.str?) []
      params := ← r.withDefault "params" (Json.list? paramOfJson?) [] }

end Statement

namespace Procedure

/-- Reads a procedure parameter. -/
def paramOfJson? (j : Json) : Option ProcedureParam := do
  let r ← j.record? ["name", "is_array"]
  pure ⟨← r.required "name" Json.str?, ← r.withDefault "is_array" Json.bool? false⟩

/-- A procedure as JSON. -/
def toJson (p : Procedure) : Json :=
  .obj [("id", .nat p.id), ("name", .str p.name),
    ("params", .list (fun a => .obj [("name", .str a.name), ("is_array", .bool a.isArray)]) p.params),
    ("statements", .list Statement.toJson p.statements), ("sysproc", .bool p.isSystem),
    ("single_partition", .bool p.singlePartition), ("partition_param", .option .nat p.routingParam)]

/-- Reads a procedure. -/
def ofJson? (j : Json) : Option Procedure := do
  let r ← j.record?
    ["id", "name", "params", "statements", "sysproc", "single_partition", "partition_param"]
  pure
    { id := ← r.required "id" Json.halfWord?
      name := ← r.required "name" Json.str?
      params := ← r.withDefault "params" (Json.list? paramOfJson?) []
      statements := ← r.withDefault "statements" (Json.list? Statement.ofJson?) []
      isSystem := ← r.withDefault "sysproc" Json.bool? false
      singlePartition := ← r.withDefault "single_partition" Json.bool? false
      routingParam := ← r.withDefault "partition_param" (Json.nullable? Json.word?) none }

end Procedure

namespace Partitioning

/-- A partitioning as JSON. -/
def toJson : Partitioning → Json
  | .replicated => .obj [("method", .str "replicated")]
  | .hash column => .obj [("method", .str "hash"), ("column", .str column)]

/-- Reads a partitioning. -/
def ofJson? (j : Json) : Option Partitioning := do
  let (tag, rest) ← j.tagged? "method"
  match tag with
  | "replicated" => pure .replicated
  | "hash" =>
    let r ← rest.record? ["column"]
    (r.required "column" Json.str?).map .hash
  | _ => none

end Partitioning

namespace Table

/-- Reads the name of a column. -/
def columnOfJson? (j : Json) : Option String := do
  let r ← j.record? ["name"]
  r.required "name" Json.str?

/-- A table as JSON. -/
def toJson (t : Table) : Json :=
  .obj [("name", .str t.name), ("columns", .list (fun c => .obj [("name", .str c)]) t.columns),
    ("primary_key", .list .str t.primaryKey), ("partitioning", .option Partitioning.toJson t.partitioning)]

/-- Reads a table. -/
def ofJson? (j : Json) : Option Table := do
  let r ← j.record? ["name", "columns", "primary_key", "partitioning"]
  pure
    { name := ← r.required "name" Json.str?
      columns := ← r.withDefault "columns" (Json.list? columnOfJson?) []
      primaryKey := ← r.withDefault "primary_key" (Json.list? Json.str?) []
      partitioning := ← r.withDefault "partitioning" (Json.nullable? Partitioning.ofJson?) none }

end Table

namespace Catalog

/-- A catalog as JSON. -/
def toJson (c : Catalog) : Json :=
  .obj [("num_partitions", .nat c.partitions), ("tables", .list Table.toJson c.tables),
    ("procedures", .list Procedure.toJson c.procedures)]

/-- Reads a catalog. -/
def ofJson? (j : Json) : Option Catalog := do
  let r ← j.record? ["num_partitions", "tables", "procedures"]
  pure
    { partitions := ← r.required "num_partitions" Json.halfWord?
      tables := ← r.withDefault "tables" (Json.list? Table.ofJson?) []
      procedures := ← r.withDefault "procedures" (Json.list? Procedure.ofJson?) [] }

end Catalog

end TxnPath
