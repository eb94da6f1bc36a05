import TxnPath.Codec.Value
import TxnPath.Trace

/-!
# Traces as JSON

Every field is written. When reading, parameters and queries default to none, the batch to zero and
flags to false.
-/

set_option autoImplicit false

namespace TxnPath

namespace Query

/-- A query as JSON. -/
def toJson (q : Query) : Json :=
  .obj [("stmt", .nat q.statement), ("params", Value.listToJson q.params), ("batch", .nat q.batch),
    ("aborted", .bool q.aborted), ("elapsed_ns", .option .nat q.elapsed)]

/-- Reads a query. -/
def ofJson? (j : Json) : Option Query := do
  let r ← j.record? ["stmt", "params", "batch", "aborted", "elapsed_ns"]
  pure
    { statement := ← r.required "stmt" Json.halfWord?
      params := ← r.withDefault "params" Value.listOfJson? []
      batch := ← r.withDefault "batch" Json.word? 0
      aborted := ← r.withDefault "aborted" Json.bool? false
      elapsed := ← r.withDefault "elapsed_ns" (Json.nullable? Json.word?) none }

end Query

namespace Trace

/-- A trace as JSON. -/
def toJson (t : Trace) : Json :=
  .obj [("txn_id", .nat t.txn), ("proc", .nat t.procedure), ("params", Value.listToJson t.params),
    ("queries", .list Query.toJson t.queries), ("aborted", .bool t.aborted)]

/-- Reads a trace. -/
def ofJson? (j : Json) : Option Trace := do
  let r ← j.record? ["txn_id", "proc", "params", "queries", "aborted"]
  pure
    { txn := ← r.required "txn_id" Json.word?
      procedure := ← r.required "proc" Json.halfWord?
      params := ← r.withDefault "params" Value.listOfJson? []
      queries := ← r.withDefault "queries" (Json.list? Query.ofJson?) []
      aborted := ← r.withDefault "aborted" Json.bool? false }

end Trace

end TxnPath
