import TxnPath.Codec.Catalog
import TxnPath.Graph.Basic

/-!
# Stored graphs

What is stored of a graph: what its vertices stand for, its edges by the positions of their ends, and
the totals. Window counters are not stored, and probabilities are derived again when a graph is
loaded (`TxnPath.Archive.Load`).
-/

set_option autoImplicit false

namespace TxnPath

namespace VertexKind

/-- The kind of a vertex as JSON. -/
def toJson : VertexKind → Json
  | .start => .obj [("type", .str "start")]
  | .commit => .obj [("type", .str "commit")]
  | .abort => .obj [("type", .str "abort")]
  | .query c =>
    .obj [("type", .str "query"), ("stmt", .nat c.statement), ("instance", .nat c.occurrence),
      ("partitions", .list .nat c.partitions.toList), ("query_type", c.queryType.toJson)]

/-- Reads the kind of a vertex. -/
def ofJson? (j : Json) : Option VertexKind := do
  let (tag, rest) ← j.tagged? "type"
  match tag with
  | "start" => pure .start
  | "commit" => pure .commit
  | "abort" => pure .abort
  | "query" =>
    let r ← rest.record? ["stmt", "instance", "partitions", "query_type"]
    pure <| .query
      { statement := ← r.required "stmt" Json.halfWord?
        occurrence := ← r.required "instance" Json.halfWord?
        partitions := .ofList (← r.required "partitions" (Json.list? Json.halfWord?))
        queryType := ← r.required "query_type" QueryType.ofJson? }
  | _ => none

end VertexKind

/-- A stored vertex. -/
structure VertexRecord where
  kind : VertexKind
  totalHits : Nat
  /-- The sum of measured execution times, in nanoseconds. -/
  execNanos : Nat
  /-- The number of measurements. -/
  execSamples : Nat
  deriving DecidableEq

namespace VertexRecord

/-- A stored vertex as JSON. -/
def toJson (v : VertexRecord) : Json :=
  .obj [("kind", v.kind.toJson), ("total_hits", .nat v.totalHits), ("exec_time_ns", .nat v.execNanos),
    ("exec_samples", .nat v.execSamples)]

/-- Reads a stored vertex. -/
def ofJson? (j : Json) : Option VertexRecord := do
  let r ← j.record? ["kind", "total_hits", "exec_time_ns", "exec_samples"]
  pure
    { kind := ← r.required "kind" VertexKind.ofJson?
      totalHits := ← r.required "total_hits" Json.word?
      execNanos := ← r.withDefault "exec_time_ns" Json.word? 0
      execSamples := ← r.withDefault "exec_samples" Json.word? 0 }

end VertexRecord

/-- A stored edge. -/
structure EdgeRecord where
  /-- The position of the vertex it leaves. -/
  source : Nat
  /-- The position of the vertex it enters. -/
  target : Nat
  totalHits : Nat
  deriving DecidableEq

namespace EdgeRecord

/-- A stored edge as JSON. -/
def toJson (e : EdgeRecord) : Json :=
  .obj [("src", .nat e.source), ("dst", .nat e.target), ("total_hits", .nat e.totalHits)]

/-- Reads a stored edge. -/
def ofJson? (j : Json) : Option EdgeRecord := do
  let r ← j.record? ["src", "dst", "total_hits"]
  pure
    { source := ← r.required "src" Json.word?
      target := ← r.required "dst" Json.word?
      totalHits := ← r.required "total_hits" Json.word? }

end EdgeRecord

/-- A stored graph. -/
structure GraphRecord where
  /-- The name of the procedure. -/
  procedure : String
  /-- The number of the procedure. -/
  procedureId : ProcedureId
  /-- The base partition. -/
  base : Nat
  /-- The number of partitions. -/
  partitions : Nat
  /-- The transactions recorded before the window. -/
  txns : Nat
  vertices : List VertexRecord
  edges : List EdgeRecord
  deriving DecidableEq

namespace GraphRecord

/-- A stored graph as JSON. -/
def toJson (g : GraphRecord) : Json :=
  .obj [("procedure", .str g.procedure), ("proc_id", .nat g.procedureId),
    ("base_partition", .nat g.base), ("num_partitions", .nat g.partitions),
    ("txn_count", .nat g.txns), ("vertices", .list VertexRecord.toJson g.vertices),
    ("edges", .list EdgeRecord.toJson g.edges)]

/-- Reads a stored graph. -/
def ofJson? (j : Json) : Option GraphRecord := do
  let r ← j.record?
    ["procedure", "proc_id", "base_partition", "num_partitions", "txn_count", "vertices", "edges"]
  pure
    { procedure := ← r.required "procedure" Json.str?
      procedureId := ← r.required "proc_id" Json.halfWord?
      base := ← r.required "base_partition" Json.halfWord?
      partitions := ← r.required "num_partitions" Json.halfWord?
      txns := ← r.required "txn_count" Json.word?
      vertices := ← r.required "vertices" (Json.list? VertexRecord.ofJson?)
      edges := ← r.required "edges" (Json.list? EdgeRecord.ofJson?) }

end GraphRecord

end TxnPath
