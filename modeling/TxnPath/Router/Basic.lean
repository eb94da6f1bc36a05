import TxnPath.Catalog
import TxnPath.Value

/-!
# Routers

A router says where work belongs: the base partition of a procedure call, and the partitions that a
statement touches. Everything that needs routing takes a router as an argument and assumes nothing
of it.
-/

set_option autoImplicit false

namespace TxnPath

/-- Where calls and statements belong. -/
structure Router where
  /-- The number of partitions. -/
  partitions : Nat
  /-- The partition that owns a call of a procedure with given arguments. -/
  base : Procedure → List Value → Except Error Nat
  /-- The partitions that a statement touches with given parameters, in a transaction with a given
  base partition. A parameter that is not known is given as no value. -/
  route : Procedure → Statement → List Value → Nat → Except Error PartitionSet

end TxnPath
