import TxnPath.Scalar

/-!
# Probability tables

What is known about the rest of a transaction: the probability that it stays within one partition,
that it aborts, and, per partition, that it is done there, that it only reads there, and that it
writes there. Every entry may be unset.
-/

set_option autoImplicit false

namespace TxnPath

/-- The probabilities kept per partition. -/
inductive PartitionField where
  /-- The transaction does not need the partition any more. -/
  | done
  /-- The transaction only reads there. -/
  | readOnly
  /-- The transaction writes there. -/
  | write
  deriving DecidableEq

/-- Probabilities about the rest of a transaction. -/
structure ProbabilityTable (R : Type) where
  /-- The transaction stays within one partition. -/
  single : Option R
  /-- The transaction aborts. -/
  abort : Option R
  /-- Per partition: it is not needed any more. -/
  done : Array (Option R)
  /-- Per partition: it is only read. -/
  readOnly : Array (Option R)
  /-- Per partition: it is written. -/
  write : Array (Option R)
  deriving DecidableEq

namespace ProbabilityTable

variable {R : Type}

/-- The table for `n` partitions with every entry unset. -/
def unset (n : Nat) : ProbabilityTable R :=
  ⟨none, none, Array.replicate n none, Array.replicate n none, Array.replicate n none⟩

instance : Inhabited (ProbabilityTable R) := ⟨unset 0⟩

/-- Unsets every entry of a table and sizes it for `n` partitions. -/
def reset (t : ProbabilityTable R) (n : Nat) : ProbabilityTable R :=
  { t with
    single := none
    abort := none
    done := Array.replicate n none
    readOnly := Array.replicate n none
    write := Array.replicate n none }

/-- Overwrites a table with another. -/
def copyFrom (t other : ProbabilityTable R) : ProbabilityTable R :=
  { t with
    single := other.single
    abort := other.abort
    done := other.done
    readOnly := other.readOnly
    write := other.write }

/-- The number of partitions. -/
def size (t : ProbabilityTable R) : Nat := t.done.size

/-- The entries of one field. -/
def column (t : ProbabilityTable R) : PartitionField → Array (Option R)
  | .done => t.done
  | .readOnly => t.readOnly
  | .write => t.write

/-- An entry; none also where there is no such partition. -/
def get? (t : ProbabilityTable R) (field : PartitionField) (p : Nat) : Option R :=
  ((t.column field)[p]?).join

/-- Sets an entry, if there is such a partition. -/
def set (t : ProbabilityTable R) (field : PartitionField) (p : Nat) (x : R) : ProbabilityTable R :=
  match field with
  | .done => { t with done := t.done.setIfInBounds p (some x) }
  | .readOnly => { t with readOnly := t.readOnly.setIfInBounds p (some x) }
  | .write => { t with write := t.write.setIfInBounds p (some x) }

/-- Whether every entry is set. -/
def isComplete (t : ProbabilityTable R) : Bool :=
  t.single.isSome && t.abort.isSome && t.done.all Option.isSome && t.readOnly.all Option.isSome &&
    t.write.all Option.isSome

end ProbabilityTable

end TxnPath
