import TxnPath.Codec.Catalog
import TxnPath.Codec.Histogram
import TxnPath.Design.Hints
import TxnPath.Design.Plan

/-!
# Hints, statistics and plans as JSON

Objects keyed by name are written in ascending order of the names. Every hint may be left out.
-/

set_option autoImplicit false

namespace TxnPath

namespace ByName

/-- A table of values as JSON. -/
def toJson {α : Type} (encode : α → Json) (m : ByName α) : Json :=
  .obj (m.toList.map fun (name, a) => (name, encode a))

/-- Reads a table of values. -/
def ofJson? {α : Type} (decode : Json → Option α) (j : Json) : Option (ByName α) :=
  (Json.table? decode j).map fun entries => entries.foldl (fun m e => m.insert e.1 e.2) ∅

end ByName

/-- Reads hints. -/
def Hints.ofJson? (j : Json) : Option (Hints Float) := do
  let r ← j.record?
    ["force_replication", "replication_size_limit", "max_memory_per_partition",
      "enable_procparameter_search"]
  pure
    { forceReplication := ← r.withDefault "force_replication" (Json.list? Json.str?) []
      replicationLimit := ← r.withDefault "replication_size_limit" (Json.nullable? Json.real?) none
      memory := ← r.withDefault "max_memory_per_partition" Json.word? 0
      searchParameters := ← r.withDefault "enable_procparameter_search" Json.bool? false }

namespace TableStatistics

/-- The statistics of a table as JSON. -/
def toJson (t : TableStatistics) : Json :=
  .obj [("tuple_size_total", .nat t.size), ("readonly", .bool t.isReadOnly)]

/-- Reads the statistics of a table. -/
def ofJson? (j : Json) : Option TableStatistics := do
  let r ← j.record? ["tuple_size_total", "readonly"]
  pure ⟨← r.required "tuple_size_total" Json.word?, ← r.required "readonly" Json.bool?⟩

end TableStatistics

namespace Statistics

/-- The statistics of a workload as JSON. -/
def toJson (s : Statistics) : Json :=
  .obj [("tables", ByName.toJson TableStatistics.toJson s.tables),
    ("table_access", Histogram.toJson id s.access)]

/-- Reads the statistics of a workload. -/
def ofJson? (j : Json) : Option Statistics := do
  let r ← j.record? ["tables", "table_access"]
  pure
    { tables := ← r.required "tables" (ByName.ofJson? TableStatistics.ofJson?)
      access := ← r.required "table_access" (Histogram.ofJson? some) }

end Statistics

namespace ProcedurePlan

/-- The plan for a procedure as JSON. -/
def toJson (e : ProcedurePlan) : Json :=
  .obj [("partition_param", .option .nat e.routingParam), ("single_partition", .bool e.singlePartition)]

/-- Reads the plan for a procedure. -/
def ofJson? (j : Json) : Option ProcedurePlan := do
  let r ← j.record? ["partition_param", "single_partition"]
  pure ⟨← r.nullable "partition_param" Json.word?, ← r.required "single_partition" Json.bool?⟩

end ProcedurePlan

namespace Plan

/-- A plan as JSON. -/
def toJson (p : Plan Float) : Json :=
  .obj [("tables", ByName.toJson Partitioning.toJson p.tables),
    ("procedures", ByName.toJson ProcedurePlan.toJson p.procedures),
    ("memory_per_partition", .real p.memory)]

/-- Reads a plan. -/
def ofJson? (j : Json) : Option (Plan Float) := do
  let r ← j.record? ["tables", "procedures", "memory_per_partition"]
  pure
    { tables := ← r.required "tables" (ByName.ofJson? Partitioning.ofJson?)
      procedures := ← r.required "procedures" (ByName.ofJson? ProcedurePlan.ofJson?)
      memory := ← r.required "memory_per_partition" Json.real? }

end Plan

end TxnPath
