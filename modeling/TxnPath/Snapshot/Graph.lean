import TxnPath.Archive.Record
import TxnPath.Forecast
import TxnPath.Graph.Sanity
import TxnPath.Snapshot.Histogram

/-!
# Snapshots of graphs and forecasts

What inspection shows of graphs, walks, estimates and forecasts. An estimate is shown with the decisions
that given cut-offs make of it.
-/

set_option autoImplicit false

namespace TxnPath

namespace ProbabilityTable

/-- A probability table, every entry a number or `null`. -/
def snapshot (t : ProbabilityTable Float) : Json :=
  let entries := fun (xs : Array (Option Float)) => Json.list (.option .real) xs.toList
  .obj [("single", .option .real t.single), ("abort", .option .real t.abort), ("done", entries t.done),
    ("read_only", entries t.readOnly), ("write", entries t.write)]

end ProbabilityTable

namespace Estimate

/-- An estimate with its decisions. -/
def snapshot (t : Thresholds Float) (e : Estimate Float) : Json :=
  .obj [("vertex", .option .nat e.vertex),
    ("batch", match e.point with
      | none => .null
      | some .initial => .str "initial"
      | some (.afterBatch n) => .nat n),
    ("confidence", .option .real e.confidence), ("probs", e.probs.snapshot),
    ("touched", e.touched.entriesSnapshot), ("valid", .bool e.isValid),
    ("single_partition", .bool (e.isSinglePartition t)), ("abortable", .bool (e.isAbortable t)),
    ("read_only", .bool (e.isReadOnly t)), ("target", (e.partitionsWhere (e.isTargetAt t)).snapshot),
    ("touched_partitions", (e.touchedPartitions t).snapshot),
    ("read_only_partitions", (e.readOnlyPartitions t).snapshot),
    ("write_partitions", (e.writePartitions t).snapshot),
    ("finished_partitions", (e.finishedPartitions t).snapshot)]

end Estimate

namespace Vertex

/-- A vertex with its counters and probabilities. -/
def snapshot (v : Vertex Float) : Json :=
  .obj [("kind", v.kind.toJson), ("label", .str v.kind.label), ("total", .nat v.totalHits),
    ("instance", .nat v.windowHits), ("avg_ns", .option .nat v.averageNanos?), ("probs", v.probs.snapshot)]

/-- What a vertex stands for, in a graph for `n` partitions. -/
def profile (n : Nat) (v : Vertex Float) : Json :=
  let call := fun (f : Call → Json) => Json.option f v.kind.call?
  .obj [("start", .bool (v.kind == .start)), ("commit", .bool (v.kind == .commit)),
    ("abort", .bool (v.kind == .abort)), ("query", .bool v.kind.call?.isSome),
    ("terminal", .bool v.kind.isTerminal), ("stmt", call fun c => .nat c.statement),
    ("instance", call fun c => .nat c.occurrence), ("query_type", call fun c => c.queryType.toJson),
    ("partitions", call fun c => c.partitions.snapshot),
    ("touches", .list .nat ((List.range n).filter v.touches))]

end Vertex

namespace Graph

/-- A graph with all counters and probabilities. -/
def snapshot (g : Graph Float) : Json :=
  .obj [("proc", .nat g.procedure), ("base", .nat g.base), ("num_partitions", .nat g.partitions),
    ("initialized", .bool g.sentinels.isSome), ("txns", .nat g.txns), ("instance_txns", .nat g.windowTxns),
    ("vertices", .list Vertex.snapshot g.vertices.toList),
    ("edges", .list (fun e =>
      .arr [.nat e.source, .nat e.target, .nat e.totalHits, .nat e.windowHits, .real e.probability])
      g.edges.toList)]

/-- The edges at a vertex, and where they lead. -/
def neighborhood (g : Graph Float) (v : Nat) : Json :=
  .obj [("out", .list (fun e => .nat e.2) (g.outgoing v)), ("in", .list (fun e => .nat e.2) (g.incoming v)),
    ("successors", .list (fun e => .nat e.1.target) (g.outgoing v))]

end Graph

/-- The positions of the sentinels. -/
def Sentinels.snapshot (s : Sentinels) : Json := .list .nat [s.start, s.commit, s.abort]

/-- A vertex that is out of balance. -/
def MassViolation.snapshot (v : MassViolation Float) : Json :=
  .arr [.str "mass", .nat v.vertex, .real v.total]

/-- An order of vertices, and the edges left out for it. -/
def ReverseOrder.snapshot (r : ReverseOrder) : Json :=
  .obj [("order", .list .nat r.order), ("skipped", .list .nat r.skipped), ("count", .nat r.skipped.length)]

/-- The keys of a store's graphs. -/
def GraphStore.snapshot (s : GraphStore Float) : List (String × Json) :=
  [("len", .nat s.size), ("empty", .bool s.isEmpty),
    ("keys", .list (fun e => .list .nat [e.1.base, e.1.procedure]) s.toList)]

namespace Walker

/-- The walk of a walker with its estimate. -/
def snapshot (t : Thresholds Float) (w : Walker Float) : List (String × Json) :=
  [("path", .list .nat w.visited), ("forced", .list .nat w.forced), ("confidence", .real w.confidence),
    ("touched", w.touched.snapshot), ("estimate", w.estimate.snapshot t)]

end Walker

namespace Forecaster

/-- A forecast with all its estimates. -/
def snapshotOf (f : Forecaster Float) (s : Forecast Float) : Json :=
  let estimate := Estimate.snapshot f.config.thresholds
  .obj [("txn_id", .nat s.txn), ("proc", .nat s.key.procedure), ("base", .nat s.key.base),
    ("initial_path", .list .nat s.initialPath), ("initial", estimate s.initial),
    ("estimates", .list estimate s.estimates), ("last_vertex", .nat s.current),
    ("actual_path", .list .nat s.path), ("touched", s.touched.entriesSnapshot),
    ("aborted", .bool (f.hasAborted s))]

/-- The pools of a forecaster by name. -/
def poolSnapshots (f : Forecaster Float) : Json :=
  .arr [.arr (.str f.walkers.name :: f.walkers.stats.snapshot),
    .arr (.str f.estimates.name :: f.estimates.stats.snapshot)]

end Forecaster

end TxnPath
