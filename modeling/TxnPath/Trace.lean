import TxnPath.Ident
import TxnPath.Value

/-!
# Transaction traces

A trace is the record of one transaction: its arguments and the queries it ran, each with the batch
it was submitted in. `Trace.batches` cuts the queries into the maximal runs of one batch number.
-/

set_option autoImplicit false

namespace TxnPath

/-- One executed query. -/
structure Query where
  /-- The statement it ran. -/
  statement : StatementId
  /-- The values bound to the statement's parameters. -/
  params : List Value
  /-- The batch it was submitted in. -/
  batch : Nat
  /-- Whether it failed and so aborted the transaction. -/
  aborted : Bool
  /-- How long it ran, in nanoseconds, if that was recorded. -/
  elapsed : Option Nat
  deriving DecidableEq

/-- One recorded transaction. -/
structure Trace where
  /-- The transaction. -/
  txn : TxnId
  /-- The procedure it ran. -/
  procedure : ProcedureId
  /-- The arguments of the procedure. -/
  params : List Value
  /-- The queries, in order of execution. -/
  queries : List Query
  /-- Whether the procedure aborted it. -/
  aborted : Bool
  deriving DecidableEq

namespace Trace

/-- A trace without queries. -/
def start (txn : TxnId) (procedure : ProcedureId) (params : List Value) : Trace :=
  ⟨txn, procedure, params, [], false⟩

/-- Appends a query that succeeded. -/
def push (t : Trace) (statement : StatementId) (params : List Value) (batch : Nat) : Trace :=
  { t with queries := t.queries ++ [⟨statement, params, batch, false, none⟩] }

/-- Whether the transaction aborted, by itself or through a query. -/
def isAborted (t : Trace) : Bool := t.aborted || t.queries.any Query.aborted

/-- The queries cut into runs of one batch number. -/
def batches (t : Trace) : List (List Query) := t.queries.splitBy fun a b => a.batch == b.batch

/-- The number of batches. -/
def batchCount (t : Trace) : Nat := t.batches.length

end Trace

end TxnPath
