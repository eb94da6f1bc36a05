import TxnPath.Codec.Catalog
import TxnPath.Codec.Mapping
import TxnPath.Codec.Value
import TxnPath.Json.Printer

/-!
# Snapshots of values, correlations and catalogs

What inspection shows of a parameter value, of a digest, of the correlations of a statement, and of the
entries of a catalog.
-/

set_option autoImplicit false

namespace TxnPath

/-- A digest: its digits, and its first eight bytes. -/
def Digest.snapshot (d : Digest) : List (String × Json) :=
  [("hex", .str d.hex), ("display", .str d.hex), ("first", .list (fun b => .nat b.toNat) (d.bytes.take 8))]

namespace Value

/-- The name of what kind of value a value is. -/
def kind : Value → String
  | .null => "null"
  | .int _ => "int"
  | .real _ => "float"
  | .str _ => "str"
  | .list _ => "array"

/-- A value with its texts and what it can be read as. -/
def snapshot (v : Value) : List (String × Json) :=
  [("kind", .str v.kind), ("json", .str v.toJson.compact), ("display", .str v.text),
    ("is_null", .bool v.isNull), ("as_i64", .option .int v.int?), ("as_str", .option .str v.str?),
    ("array_len", .option (fun vs => .nat vs.length) v.list?)]

end Value

namespace MappingTable

/-- The parameters of one occurrence of a statement that have mappings, each with its mappings in the
order of a policy; `null` if there are none. -/
def snapshot (t : MappingTable Float) (policy : MappingPolicy) (procedure : ProcedureId)
    (statement : StatementId) (occurrence : Nat) : Json :=
  .option
    (fun slots =>
      .list (fun e => .arr [.nat e.1, .list Mapping.toJson (policy.ordered e.2)]) slots.toList)
    (t.statementMappings? procedure statement occurrence)

end MappingTable

/-- A statement, and whether it only reads. -/
def Statement.snapshot (s : Statement) : Json := .arr [s.toJson, .bool s.isReadOnly]

/-- A procedure's name, and whether it only reads. -/
def Procedure.snapshot (p : Procedure) : Json := .arr [.str p.name, .bool p.isReadOnly]

/-- A table's name, whether it is replicated, and the column that it is hashed by. -/
def Table.snapshot (t : Table) : Json :=
  .arr [.str t.name, .bool t.isReplicated, .option .str t.partitionColumn?]

end TxnPath
