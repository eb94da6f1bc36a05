import TxnPath.Error
import TxnPath.Work.Engine

/-!
# Errors of transactions

Why a transaction cannot begin, go on or commit.
-/

set_option autoImplicit false

namespace TxnPath

/-- An error of a transaction. -/
inductive TxnError where
  /-- An executor failed. -/
  | engine (failure : EngineFailure)
  /-- The transaction has been aborted. -/
  | aborted (txn : TxnId) (reason : String)
  /-- There is no procedure of this name. -/
  | unknownProcedure (name : String)
  /-- A partition is hosted elsewhere. -/
  | notLocal (partition : Nat)
  /-- The partitions did not all acknowledge. -/
  | prepare (txn : TxnId) (reason : String)
  /-- An error of another component. -/
  | core (cause : Error)
  deriving DecidableEq

/-- The kind of an error of a transaction. -/
def TxnError.kind : TxnError → String
  | .engine _ => "Engine"
  | .aborted .. => "Aborted"
  | .unknownProcedure _ => "UnknownProcedure"
  | .notLocal _ => "NotLocal"
  | .prepare .. => "Prepare"
  | .core cause => cause.kind

/-- The wording of an error of a transaction. -/
def TxnError.message : TxnError → String
  | .engine failure => s!"fragment execution failed: {failure.message}"
  | .aborted txn reason => s!"txn {txn.text} aborted: {reason}"
  | .unknownProcedure name => s!"unknown procedure '{name}'"
  | .notLocal partition => s!"partition {partitionText partition} is not hosted by this site"
  | .prepare txn reason => s!"prepare failed for txn {txn.text}: {reason}"
  | .core cause => cause.message

end TxnPath
