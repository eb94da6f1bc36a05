import TxnPath.StableSort
import TxnPath.Trace

/-!
# Units of work

A statement of a batch is compiled into fragments. A task is the list of fragments that one
transaction sends to one partition. A fragment may produce a result table under a dependency number,
and may consume the tables of another; the executor of a partition gets all of it in one `Batch`.
-/

set_option autoImplicit false

namespace TxnPath

/-- Rows that a fragment produced. -/
structure ResultTable where
  /-- The names of the columns. -/
  columns : List String
  /-- The rows. -/
  rows : List (List Value)
  deriving DecidableEq

instance : Inhabited ResultTable := ⟨⟨[], []⟩⟩

/-- One piece of a statement's plan. -/
structure Fragment where
  /-- Its number with the executor. -/
  id : Nat
  /-- The statement that it belongs to. -/
  statement : StatementId
  /-- The position of that statement in the batch. -/
  index : Nat
  /-- The dependency whose tables it consumes. -/
  input : Option DependencyId
  /-- The dependency that its table is delivered under. -/
  output : Option DependencyId
  /-- The values bound to the statement's parameters. -/
  params : List Value
  deriving DecidableEq

/-- The fragments that a transaction sends to one partition. -/
structure Task where
  /-- Its number within the transaction. -/
  id : TaskId
  /-- The transaction. -/
  txn : TxnId
  /-- The partition. -/
  destination : Nat
  /-- The fragments, in order. -/
  fragments : List Fragment
  deriving DecidableEq

namespace Task

/-- Whether some fragment consumes tables. -/
def hasInputs (t : Task) : Bool := t.fragments.any fun f => f.input.isSome

/-- Whether some fragment produces a table. -/
def hasOutputs (t : Task) : Bool := t.fragments.any fun f => f.output.isSome

end Task

/-- What an executor is asked to do. The lists have one entry per fragment, in order, except that
`outputs` leaves out fragments that produce nothing. -/
structure Batch where
  /-- The numbers of the fragments. -/
  fragments : List Nat
  /-- The dependency that each fragment consumes. -/
  inputs : List (Option DependencyId)
  /-- The dependencies that fragments produce. -/
  outputs : List DependencyId
  /-- The values bound to each fragment's parameters. -/
  params : List (List Value)
  /-- The tables of the dependencies consumed, each named once. -/
  tables : List (DependencyId × List ResultTable)
  /-- The transaction. -/
  txn : Option TxnId
  /-- The last transaction that the site committed. -/
  lastCommitted : Option TxnId
  /-- The token under which the work can be undone. -/
  undoToken : Nat
  deriving DecidableEq

namespace Batch

/-- The number of fragments. -/
def size (b : Batch) : Nat := b.fragments.length

/-- Whether there is nothing to do. -/
def isEmpty (b : Batch) : Bool := b.fragments.isEmpty

end Batch

/-- The request that a task makes of the executor of its partition. -/
def Task.toBatch (t : Task) (tables : List (DependencyId × List ResultTable))
    (lastCommitted : Option TxnId) (undoToken : Nat) : Batch where
  fragments := t.fragments.map Fragment.id
  inputs := t.fragments.map Fragment.input
  outputs := t.fragments.filterMap Fragment.output
  params := t.fragments.map Fragment.params
  tables := tables
  txn := some t.txn
  lastCommitted := lastCommitted
  undoToken := undoToken

/-- One query per statement that tasks belong to, in the order of the statements' positions, with the
parameters of the statement's first fragment. -/
def Task.queries (tasks : List Task) : List Query :=
  let fragments := tasks.flatMap Task.fragments
  let positions := stableSort (fun i j => decide (i ≤ j)) (fragments.map Fragment.index).eraseDups
  positions.filterMap fun i =>
    (fragments.find? fun f => f.index == i).map fun f => ⟨f.statement, f.params, 0, false, none⟩

end TxnPath
