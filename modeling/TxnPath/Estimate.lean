import TxnPath.Config.Basic
import TxnPath.Histogram.Dense
import TxnPath.PartitionSet
import TxnPath.Pool
import TxnPath.Probability

/-!
# Estimates

An estimate is the prediction for a transaction from one point of its path on, with the decisions
that cut-offs make of it. An unset probability reads as the worst case: not within one partition,
abortable, written everywhere, done nowhere.

Estimates are pooled. Finishing one forgets where and when it was made and what it touched; its
probabilities are overwritten by the next use.
-/

set_option autoImplicit false

namespace TxnPath

/-- The point of a transaction that an estimate describes. -/
inductive EstimatePoint where
  /-- Before any query. -/
  | initial
  /-- After a batch, counted from zero. -/
  | afterBatch (batch : Nat)
  deriving DecidableEq

/-- A prediction for the rest of a transaction. -/
structure Estimate (R : Type) where
  /-- The point it describes. -/
  point : Option EstimatePoint
  /-- The vertex it starts from. -/
  vertex : Option Nat
  /-- The predicted probabilities. -/
  probs : ProbabilityTable R
  /-- How sure the prediction is of its path. -/
  confidence : Option R
  /-- How often each partition was touched. -/
  touched : DenseHistogram
  deriving DecidableEq

namespace Estimate

variable {R : Type}

/-- An estimate that was never used. -/
def new : Estimate R := ⟨none, none, .unset 0, none, .empty 0⟩

instance : Inhabited (Estimate R) := ⟨new⟩

/-- An estimate for `n` partitions, with nothing predicted yet. -/
def start (vertex : Nat) (point : EstimatePoint) (n : Nat) : Estimate R :=
  ⟨some point, some vertex, .unset n, none, .empty n⟩

/-- Takes an estimate into use for `n` partitions. -/
def init (e : Estimate R) (vertex : Nat) (point : EstimatePoint) (n : Nat) : Estimate R :=
  { e with
    vertex := some vertex
    point := some point
    probs := e.probs.reset n
    confidence := none
    touched := .empty n }

/-- Overwrites an estimate with another. -/
def copyFrom (e other : Estimate R) : Estimate R :=
  { e with
    point := other.point
    vertex := other.vertex
    probs := e.probs.copyFrom other.probs
    confidence := other.confidence
    touched := other.touched }

/-- The estimate as it is put away. -/
def finish (e : Estimate R) : Estimate R :=
  { e with vertex := none, point := none, confidence := none, touched := e.touched.clearValues }

instance : Poolable (Estimate R) where
  isInitialized e := e.vertex.isSome
  finish := finish

/-- Sets the probability of one field at a partition that must exist. -/
def set? (e : Estimate R) (field : PartitionField) (p : Nat) (x : R) : Except Fault (Estimate R) :=
  if p < e.probs.size then .ok { e with probs := e.probs.set field p x } else .error .outOfBounds

/-- Counts a touch of a partition that must exist. -/
def touch? (e : Estimate R) (p : Nat) : Except Fault (Estimate R) :=
  (e.touched.add? p 1).map fun touched => { e with touched := touched }

/-- Whether everything has been predicted. -/
def isValid (e : Estimate R) : Bool := e.vertex.isSome && e.probs.isComplete

variable [Scalar R]

/-- Whether the transaction is expected to stay within one partition. -/
def isSinglePartition (e : Estimate R) (t : Thresholds R) : Bool :=
  decide (t.singlePartition ≤ e.probs.single.getD 0)

/-- Whether the transaction may well abort. -/
def isAbortable (e : Estimate R) (t : Thresholds R) : Bool := decide (t.abort ≤ e.probs.abort.getD 1)

/-- Whether a partition is expected to be only read. -/
def isReadOnlyAt (e : Estimate R) (t : Thresholds R) (p : Nat) : Bool :=
  decide (t.read ≤ (e.probs.get? .readOnly p).getD 0)

/-- Whether a partition is expected to be written. -/
def isWrittenAt (e : Estimate R) (t : Thresholds R) (p : Nat) : Bool :=
  decide (t.write ≤ (e.probs.get? .write p).getD 1)

/-- Whether a partition is expected not to be needed any more. -/
def isFinishedAt (e : Estimate R) (t : Thresholds R) (p : Nat) : Bool :=
  decide (t.done ≤ (e.probs.get? .done p).getD 0)

/-- Whether a partition is expected to be needed still. -/
def isTargetAt (e : Estimate R) (t : Thresholds R) (p : Nat) : Bool :=
  decide (t.done ≤ 1 - (e.probs.get? .done p).getD 0)

/-- The partitions that pass a test. -/
def partitionsWhere (e : Estimate R) (test : Nat → Bool) : PartitionSet :=
  (PartitionSet.below e.probs.size).filter test

/-- The partitions expected to be needed still. -/
def touchedPartitions (e : Estimate R) (t : Thresholds R) : PartitionSet :=
  e.partitionsWhere (e.isTargetAt t)

/-- The partitions expected to be only read. -/
def readOnlyPartitions (e : Estimate R) (t : Thresholds R) : PartitionSet :=
  e.partitionsWhere (e.isReadOnlyAt t)

/-- The partitions expected to be written. -/
def writePartitions (e : Estimate R) (t : Thresholds R) : PartitionSet :=
  e.partitionsWhere (e.isWrittenAt t)

/-- The partitions expected not to be needed any more. -/
def finishedPartitions (e : Estimate R) (t : Thresholds R) : PartitionSet :=
  e.partitionsWhere (e.isFinishedAt t)

/-- Whether nothing that is still needed is expected to be written. -/
def isReadOnly (e : Estimate R) (t : Thresholds R) : Bool :=
  (e.touchedPartitions t).toList.all fun p => !e.isWrittenAt t p

end Estimate

end TxnPath
