import TxnPath.Scalar

/-!
# Hints for a design

What a partition plan may take for granted, and how much memory it may use.
-/

set_option autoImplicit false

namespace TxnPath

/-- Hints for one design. -/
structure Hints (R : Type) where
  /-- Tables that are replicated in any case. -/
  forceReplication : List String
  /-- The share of a partition's memory up to which a table that is only read is replicated; none
  means that no table is replicated for its size. -/
  replicationLimit : Option R
  /-- The memory of a partition in bytes; zero means that memory is not accounted for. -/
  memory : Nat
  /-- Whether to choose a routing parameter for every procedure. -/
  searchParameters : Bool
  deriving DecidableEq

namespace Hints

variable {R : Type}

/-- No hints. -/
def empty : Hints R := ⟨[], none, 0, false⟩

/-- Whether the sizes of tables matter. -/
def accountsMemory (h : Hints R) : Bool := h.replicationLimit.isSome && h.memory != 0

end Hints

end TxnPath
