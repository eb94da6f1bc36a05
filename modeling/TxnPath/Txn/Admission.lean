import TxnPath.PartitionSet

/-!
# Admission

What is fixed about a transaction when a site admits it, and how far its round is at a partition.
-/

set_option autoImplicit false

namespace TxnPath

/-- What was predicted of a transaction. -/
structure Prediction where
  /-- The partitions that it is expected to touch. -/
  touched : PartitionSet
  /-- Whether it is expected to write nothing. -/
  readOnly : Bool
  /-- Whether it may well abort. -/
  abortable : Bool
  deriving DecidableEq

namespace Prediction

/-- The prediction that a transaction touches one partition, of which nothing else is known. -/
def single (p : Nat) : Prediction := ⟨.singleton p, false, true⟩

/-- Whether one partition is expected to be touched. -/
def isSingle (p : Prediction) : Bool := p.touched.size == 1

end Prediction

/-- The fixed facts about a transaction. -/
structure Admission where
  /-- Its number. -/
  txn : TxnId
  /-- The handle by which the client recognises the answer. -/
  client : ClientHandle
  /-- The procedure that it runs. -/
  procedure : ProcedureId
  /-- Whether the procedure belongs to the system. -/
  isSystem : Bool
  /-- The partition that it is run at. -/
  base : Nat
  /-- The partitions that the site hosts. -/
  hosted : List Nat
  /-- The number of partitions of the store. -/
  partitions : Nat
  /-- What was predicted of it. -/
  prediction : Prediction
  deriving DecidableEq

/-- How far a round is at one partition. -/
inductive Phase where
  /-- No round has begun. -/
  | uninitialized
  /-- Work can be added. -/
  | initialized
  /-- The work is fixed and runs. -/
  | started
  /-- All results have come. -/
  | finished
  deriving DecidableEq

namespace Phase

/-- How messages name a phase. -/
def text : Phase → String
  | .uninitialized => "UNINITIALIZED"
  | .initialized => "INITIALIZED"
  | .started => "STARTED"
  | .finished => "FINISHED"

/-- Whether a round may begin. -/
def isIdle : Phase → Bool
  | .uninitialized | .finished => true
  | _ => false

end Phase

end TxnPath
