import TxnPath.Codec.Task
import TxnPath.Site.Basic
import TxnPath.Snapshot.Histogram

/-!
# Snapshots of transactions and sites

What inspection shows of transactions and their parts, of the calls of executors, and of answers to
clients.
-/

set_option autoImplicit false

namespace TxnPath

namespace DependencyRecord

/-- The record of a dependency. -/
def snapshot (e : DependencyRecord) : List (String × Json) :=
  [("stmt_index", .nat e.statement), ("dep", .option .nat e.dependency),
    ("partitions", .list .nat e.producers), ("results", .nat e.results.length),
    ("complete", .bool e.isComplete), ("first", .option ResultTable.toJson e.firstResult?),
    ("ready", .bool e.hasReadyTasks), ("init", .bool (Poolable.isInitialized e))]

end DependencyRecord

/-- An outcome of preparing. -/
def PrepareOutcome.snapshot (o : PrepareOutcome) : Json := .str o.name.toLower

namespace PrepareCallback

/-- The acknowledgements of a transaction. -/
def snapshot (c : PrepareCallback) : List (String × Json) :=
  [("txn_id", .option .nat c.txn), ("expected", c.expected.snapshot), ("acked", c.acknowledged.snapshot),
    ("outcome", c.outcome.snapshot), ("init", .bool (Poolable.isInitialized c))]

end PrepareCallback

namespace Admission

/-- What is fixed about a transaction. -/
def snapshot (a : Admission) : Json :=
  .obj [("txn_id", .nat a.txn), ("client", .nat a.client), ("proc", .nat a.procedure),
    ("sysproc", .bool a.isSystem), ("base", .nat a.base), ("predicted", a.prediction.touched.snapshot),
    ("read_only", .bool a.prediction.readOnly), ("abortable", .bool a.prediction.abortable),
    ("single", .bool a.prediction.isSingle)]

end Admission

namespace Transaction

/-- The state of a transaction, beside whether it is forecast. -/
def snapshot (t : Transaction) (isForecast : Bool) : Json :=
  let r := t.round
  let phaseAt := fun p => (t.phases.lookup p).getD .uninitialized
  .obj [("rounds", .list (fun p => .str (phaseAt p).text) t.admission.hosted), ("deps", .nat r.expected),
    ("received", .nat r.received), ("blocked", .nat r.blocked.length), ("order", .list .nat r.order),
    ("internal", (PartitionSet.ofList r.internal).snapshot),
    ("latch", .option (fun l => .nat l.count) r.latch), ("touched", t.touched.entriesSnapshot),
    ("touched_set", t.touchedPartitions.snapshot), ("exec_single", .bool t.stayedSingle),
    ("done", t.done.snapshot), ("pending", .option .str t.abortReason), ("has_pending", .bool t.hasFailed),
    ("undo_token", .option .nat t.undoToken), ("finished", .bool t.isFinished),
    ("estimating", .bool isForecast)]

end Transaction

namespace Batch

/-- The tables that fragments consume, by ascending dependency. -/
def tablesSnapshot (tables : List (DependencyId × List ResultTable)) : Json :=
  .list (fun e => .arr [.nat e.1, .list ResultTable.toJson e.2])
    (stableSort (fun a b => decide (a.1 ≤ b.1)) tables)

/-- What an executor is asked to do. -/
def snapshot (b : Batch) : List (String × Json) :=
  [("input_deps", .list (.option .nat) b.inputs), ("output_deps", .list .nat b.outputs),
    ("params", .list Value.listToJson b.params), ("len", .nat b.size), ("empty", .bool b.isEmpty),
    ("txn_id", .option .nat b.txn), ("last_committed", .option .nat b.lastCommitted),
    ("undo_token", .nat b.undoToken)]

end Batch

namespace EngineCall

/-- One call of an executor. -/
def snapshot : EngineCall → Json
  | .execute p b =>
    .obj ([("execute", .nat p), ("fragments", .list .nat b.fragments),
      ("inputs", Batch.tablesSnapshot b.tables)] ++ b.snapshot)
  | .release p token => .obj [("release", .nat p), ("undo_token", .nat token)]
  | .undo p token => .obj [("undo", .nat p), ("undo_token", .nat token)]

end EngineCall

namespace Response

/-- The answer to a client. -/
def snapshot : Response → Json
  | .committed txn client results =>
    .obj [("committed", .bool true), ("txn_id", .nat txn), ("client", .nat client),
      ("results", .list ResultTable.toJson results)]
  | .aborted txn client reason =>
    .obj [("committed", .bool false), ("txn_id", .nat txn), ("client", .nat client),
      ("reason", .str reason)]

end Response

end TxnPath
