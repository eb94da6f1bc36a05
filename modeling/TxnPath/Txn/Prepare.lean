import TxnPath.Fault
import TxnPath.PartitionSet
import TxnPath.Pool

/-!
# Preparing to commit

A transaction of several partitions commits only after all of them have acknowledged that they can.
The callback collects acknowledgements; it is ready once every expected partition has acknowledged,
and aborts for good once one has refused. Callbacks are pooled.
-/

set_option autoImplicit false

namespace TxnPath

/-- Where the preparation of a transaction stands. -/
inductive PrepareOutcome where
  /-- Some partition has not acknowledged yet. -/
  | waiting
  /-- Every partition has acknowledged. -/
  | ready
  /-- A partition has refused. -/
  | abort
  deriving DecidableEq

/-- How messages name an outcome. -/
def PrepareOutcome.name : PrepareOutcome → String
  | .waiting => "Waiting"
  | .ready => "Ready"
  | .abort => "Abort"

/-- The acknowledgements of a transaction. -/
structure PrepareCallback where
  /-- The transaction, while the callback is in use. -/
  txn : Option TxnId
  /-- The partitions that have to acknowledge. -/
  expected : PartitionSet
  /-- The partitions that have acknowledged. -/
  acknowledged : PartitionSet
  /-- Whether a partition has refused. -/
  refused : Bool
  deriving DecidableEq

namespace PrepareCallback

/-- A callback that is not in use. -/
def new : PrepareCallback := ⟨none, ∅, ∅, false⟩

instance : Poolable PrepareCallback where
  isInitialized c := c.txn.isSome
  finish c := { c with txn := none, expected := ∅, acknowledged := ∅, refused := false }

/-- Takes the callback into use for a transaction and the partitions that it is predicted to touch. -/
def start (c : PrepareCallback) (txn : TxnId) (expected : PartitionSet) : Except Fault PrepareCallback :=
  if c.txn.isSome then .error .prepareReused else .ok { c with txn := some txn, expected := expected }

/-- Expects further partitions to acknowledge. -/
def expect (c : PrepareCallback) (partitions : PartitionSet) : PrepareCallback :=
  { c with expected := c.expected.union partitions }

/-- Where the preparation stands. -/
def outcome (c : PrepareCallback) : PrepareOutcome :=
  if c.refused then .abort else if c.expected.isSubset c.acknowledged then .ready else .waiting

/-- Records the acknowledgement of at least one partition. -/
def acknowledge (c : PrepareCallback) (partitions : PartitionSet) : Except Fault PrepareCallback :=
  if partitions.isEmpty then .error (.emptyPrepare c.txn)
  else .ok { c with acknowledged := c.acknowledged.union partitions }

/-- Records a refusal. -/
def refuse (c : PrepareCallback) : PrepareCallback := { c with refused := true }

end PrepareCallback

end TxnPath
