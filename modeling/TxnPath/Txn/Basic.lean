import TxnPath.Histogram.Dense
import TxnPath.Txn.Admission
import TxnPath.Txn.Error
import TxnPath.Txn.Prepare
import TxnPath.Txn.Round

/-!
# Transactions

The state of a transaction at the site of its base partition: how far its round is at every hosted
partition, the bookkeeping of the current round, the partitions it ran fragments at, the first error
recorded against it, and its prepare callback if several partitions are predicted.

The steps of a transaction are functions from one state to the next (`TxnPath.Txn.Steps`).
-/

set_option autoImplicit false

namespace TxnPath

/-- The state of a transaction. -/
structure Transaction where
  /-- What is fixed about it. -/
  admission : Admission
  /-- How far its round is at each hosted partition. -/
  phases : List (Nat × Phase)
  /-- The bookkeeping of the current round. -/
  round : Round
  /-- The undo token of the last round. -/
  undoToken : Option Nat
  /-- How many fragments it ran at each partition. -/
  touched : DenseHistogram
  /-- The partitions that it has been prepared at. -/
  done : PartitionSet
  /-- The error to report to whoever waits next. -/
  pendingError : Option TxnError
  /-- The wording of the first error recorded. -/
  abortReason : Option String
  /-- The prepare callback, if several partitions are predicted. -/
  prepare : Option PrepareCallback
  /-- The results of the last batch. -/
  lastResults : List ResultTable
  /-- Whether it has been finished. -/
  isFinished : Bool
  /-- The counters of its pool of dependency records. -/
  recordPool : PoolStats
  /-- The counters of its pool of prepare callbacks. -/
  preparePool : PoolStats
  deriving DecidableEq

namespace Transaction

/-- A fault in a round of the transaction. -/
def fault (t : Transaction) (cause : RoundFault) : Fault := .round t.admission.txn cause

/-- Whether a partition is hosted by the site. -/
def isLocal (t : Transaction) (p : Nat) : Bool := t.admission.hosted.contains p

/-- How far the round is at a partition. -/
def phase (t : Transaction) (p : Nat) : Except Fault Phase :=
  match t.phases.lookup p with
  | some phase => .ok phase
  | none => .error (t.fault (.notHosted p))

/-- Replaces the phase in the first entry of a partition. -/
def replacePhase (p : Nat) (phase : Phase) : List (Nat × Phase) → List (Nat × Phase)
  | [] => []
  | (q, old) :: rest => if q = p then (q, phase) :: rest else (q, old) :: replacePhase p phase rest

/-- Sets the phase of a partition. -/
def setPhase (t : Transaction) (p : Nat) (phase : Phase) : Transaction :=
  { t with phases := replacePhase p phase t.phases }

/-- Replaces the bookkeeping of the round; the pool hands out a record for every new one, and takes
back those that are gone. -/
def setRound (t : Transaction) (r : Round) : Transaction :=
  { t with round := r, recordPool := t.recordPool.reach r.records.length }

/-- Whether an error has been recorded. -/
def hasFailed (t : Transaction) : Bool := t.abortReason.isSome

/-- The partitions that fragments were run at. -/
def touchedPartitions (t : Transaction) : PartitionSet := .ofList t.touched.values

/-- Whether fragments were run at no more than one partition. -/
def stayedSingle (t : Transaction) : Bool := t.touched.valueCount ≤ 1

/-- A transaction as it is admitted. If several partitions are predicted, it takes a prepare callback
into use. -/
def start (a : Admission) (poolIdle : Nat) : Except Fault Transaction :=
  if a.prediction.touched.isEmpty then .error (.round a.txn .nothingPredicted)
  else if !a.hosted.contains a.base then .error (.round a.txn (.foreignBase a.base))
  else
    let t : Transaction :=
      { admission := a
        phases := a.hosted.map fun p => (p, .uninitialized)
        round := .empty
        undoToken := none
        touched := .empty a.partitions
        done := ∅
        pendingError := none
        abortReason := none
        prepare := none
        lastResults := []
        isFinished := false
        recordPool := .new poolIdle
        preparePool := .new poolIdle }
    if a.prediction.isSingle then .ok t
    else
      (PrepareCallback.new.start a.txn a.prediction.touched).map fun c =>
        { t with prepare := some c, preparePool := t.preparePool.borrow }

end Transaction

end TxnPath
