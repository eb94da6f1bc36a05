import TxnPath.Work.Task

/-!
# Executors

The executors of a site's partitions run batches, and make the work done under an undo token
permanent or roll it back. An `Engine` is any way to answer batches that may depend on everything
asked before; the site keeps that record as a list of calls.
-/

set_option autoImplicit false

namespace TxnPath

/-- An executor failed, with a code of its own. -/
structure EngineFailure where
  code : Int
  deriving DecidableEq

/-- The wording of a failure. -/
def EngineFailure.message (f : EngineFailure) : String := s!"execution engine failed with code {f.code}"

/-- One call of an executor. -/
inductive EngineCall where
  /-- Run a batch at a partition. -/
  | execute (partition : Nat) (batch : Batch)
  /-- Make the work under a token at a partition permanent. -/
  | release (partition undoToken : Nat)
  /-- Roll back the work under a token at a partition. -/
  | undo (partition undoToken : Nat)
  deriving DecidableEq

/-- The result of a batch: tables under the dependencies that they belong to, in order. -/
abbrev Deliveries := List (DependencyId × ResultTable)

/-- How executors answer a batch at a partition, given all calls before. -/
structure Engine where
  execute : List EngineCall → Nat → Batch → Except EngineFailure Deliveries

end TxnPath
