import TxnPath.Histogram.Basic
import TxnPath.Histogram.Dense
import TxnPath.Json.Basic
import TxnPath.PartitionSet
import TxnPath.Pool

/-!
# Snapshots of counters

What inspection shows of histograms and pools: totals, the observed keys, and the extremes of keys and
counts.
-/

set_option autoImplicit false

namespace TxnPath

/-- A set of partitions, ascending. -/
def PartitionSet.snapshot (s : PartitionSet) : Json := .list .nat s.toList

namespace Histogram
open Std (TransOrd)
variable {K : Type} [Ord K] [TransOrd K]

/-- What is shown of a histogram, given how keys are shown. -/
def snapshot (encode : K → Json) (h : Histogram K) : List (String × Json) :=
  [("samples", .nat h.samples), ("n", .nat h.valueCount), ("empty", .bool h.isEmpty),
    ("values", .list encode h.values), ("min_value", .option encode h.minValue?),
    ("max_value", .option encode h.maxValue?), ("min_count", .option .nat h.minCount?),
    ("max_count", .option .nat h.maxCount?), ("min_keys", .list encode h.minCountValues),
    ("max_keys", .list encode h.maxCountValues)]

end Histogram

namespace DenseHistogram

/-- What is shown of a histogram over a fixed domain. -/
def snapshot (h : DenseHistogram) : List (String × Json) :=
  [("samples", .nat h.samples), ("n", .nat h.valueCount), ("empty", .bool h.isEmpty),
    ("values", .list .nat h.values), ("min_value", .option .nat h.minValue?),
    ("max_value", .option .nat h.maxValue?), ("min_count", .option .nat h.minCount?),
    ("max_count", .option .nat h.maxCount?), ("min_keys", .list .nat h.minCountValues),
    ("max_keys", .list .nat h.maxCountValues)]

/-- The observed positions with their counts. -/
def entriesSnapshot (h : DenseHistogram) : Json := .list (fun e => .arr [.nat e.1, .nat e.2]) h.toList

end DenseHistogram

/-- The counters of a pool: idle objects, those that are out, those made, and the most ever out. -/
def PoolStats.snapshot (s : PoolStats) : List Json := [s.idle, s.active, s.created, s.peak].map .nat

/-- A pool with its counters. -/
def Pool.snapshot {α : Type} (p : Pool α) : List (String × Json) :=
  [("idle", .nat p.idle.length), ("active", .nat p.active), ("created", .nat p.created),
    ("peak", .nat p.peak), ("name", .str p.name)]

end TxnPath
