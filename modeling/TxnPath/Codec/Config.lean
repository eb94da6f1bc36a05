import TxnPath.Codec.Mapping
import TxnPath.Config.Basic

/-!
# Configurations as JSON

Every field is written, and every field that may not be absent has to be there when reading. The
tolerance may be no finite number, in which case it is written as a text.
-/

set_option autoImplicit false

namespace TxnPath

namespace Thresholds

/-- The fields of cut-offs, in order. -/
def fieldNames : List String := ["single_partition", "read", "write", "done", "abort"]

/-- Cut-offs as JSON. -/
def toJson (t : Thresholds Float) : Json := .obj (t.named.map fun (name, x) => (name, .real x))

/-- Reads cut-offs. -/
def ofJson? (j : Json) : Option (Thresholds Float) := do
  let r ← j.record? fieldNames
  pure
    { singlePartition := ← r.required "single_partition" Json.real?
      read := ← r.required "read" Json.real?
      write := ← r.required "write" Json.real?
      done := ← r.required "done" Json.real?
      abort := ← r.required "abort" Json.real? }

/-- Reads cut-offs that may be given in part: one number for all of them, or those that differ from
the default. -/
def ofPartial? (j : Json) : Option (Thresholds Float) :=
  match j with
  | .int _ | .real _ => j.real?.map .uniform
  | _ => ((toJson .default).override j).bind ofJson?

end Thresholds

namespace Config

/-- The fields of a configuration, in order. -/
def fieldNames : List String :=
  ["local_partitions", "markov_enable", "markov_path", "force_traversal", "min_hits_for_abort",
    "recompute_tolerance", "recompute_vertex_proportion", "recompute_min_txns", "mapping_policy",
    "pool_idle", "thresholds", "latch_timeout_ms"]

/-- A double as JSON, a text if it is no finite number. -/
def realToJson (x : Float) : Json :=
  match Decimal.magnitude x with
  | .finite _ _ => .real x
  | _ => .str (Decimal.plainLayout.text x)

/-- A configuration as JSON. -/
def toJson (c : Config Float) : Json :=
  .obj [("local_partitions", .list .nat c.localPartitions), ("markov_enable", .bool c.predict),
    ("markov_path", .option .str c.graphsPath), ("force_traversal", .bool c.forceTraversal),
    ("min_hits_for_abort", .nat c.minHitsForAbort),
    ("recompute_tolerance", realToJson c.recomputeTolerance),
    ("recompute_vertex_proportion", .real c.recomputeProportion),
    ("recompute_min_txns", .nat c.recomputeMinTxns), ("mapping_policy", .str c.policy.name),
    ("pool_idle", .nat c.poolIdle), ("thresholds", c.thresholds.toJson),
    ("latch_timeout_ms", .option .nat c.latchTimeout)]

/-- Reads a configuration. -/
def ofJson? (j : Json) : Option (Config Float) := do
  let r ← j.record? fieldNames
  pure
    { localPartitions := ← r.required "local_partitions" (Json.list? Json.halfWord?)
      predict := ← r.required "markov_enable" Json.bool?
      graphsPath := ← r.nullable "markov_path" Json.str?
      forceTraversal := ← r.required "force_traversal" Json.bool?
      minHitsForAbort := ← r.required "min_hits_for_abort" Json.word?
      recomputeTolerance := ← r.required "recompute_tolerance" Json.real?
      recomputeProportion := ← r.required "recompute_vertex_proportion" Json.real?
      recomputeMinTxns := ← r.required "recompute_min_txns" Json.word?
      policy := ← r.required "mapping_policy" MappingPolicy.ofJson?
      poolIdle := ← r.required "pool_idle" Json.word?
      thresholds := ← r.required "thresholds" Thresholds.ofJson?
      latchTimeout := ← r.nullable "latch_timeout_ms" Json.word? }

/-- Reads a configuration that is given by what differs from the default. -/
def ofPartial? (j : Json) : Option (Config Float) := do
  let thresholds ← Thresholds.ofPartial? (j.field "thresholds")
  let j ← (toJson .default).override j
  ofJson? (← j.override (.obj [("thresholds", thresholds.toJson)]))

end Config

end TxnPath
