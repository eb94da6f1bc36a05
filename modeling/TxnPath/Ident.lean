/-!
# Identifiers

Every numbered thing of a site: procedures, statements, partitions, result dependencies,
transactions, client handles, tasks, and the vertices and edges of path graphs. The texts below are
how messages name them.

Partitions, vertices and edges are positions that are compared and bounded everywhere, so they stay
plain numbers; the others are only ever told apart.
-/

set_option autoImplicit false

namespace TxnPath

/-- The number of a stored procedure in the catalog. -/
abbrev ProcedureId := Nat

/-- The number of a statement within its procedure. -/
abbrev StatementId := Nat

/-- The handle under which a fragment's result table is delivered. -/
abbrev DependencyId := Nat

/-- The number of a transaction at its site. -/
abbrev TxnId := Nat

/-- The handle by which a client recognises the answer to its request. -/
abbrev ClientHandle := Nat

/-- The number of a task within its transaction. -/
abbrev TaskId := Nat

/-- Counters and long identifiers on the wire stay below `2 ^ 64`. -/
def wordLimit : Nat := 18446744073709551616

/-- Short identifiers on the wire stay below `2 ^ 32`. -/
def halfWordLimit : Nat := 4294967296

/-- How messages name a procedure. -/
def ProcedureId.text (p : ProcedureId) : String := s!"ProcId({p})"

/-- How messages name a statement. -/
def StatementId.text (s : StatementId) : String := s!"StmtId({s})"

/-- How messages name a dependency. -/
def DependencyId.text (d : DependencyId) : String := s!"DependencyId({d})"

/-- How messages name a transaction. -/
def TxnId.text (t : TxnId) : String := s!"TxnId({t})"

/-- How messages name a partition. -/
def partitionText (p : Nat) : String := s!"PartitionId({p})"

/-- How messages name a vertex of a path graph. -/
def vertexText (v : Nat) : String := s!"v{v}"

/-- How messages show a name that may be absent. -/
def optionalText (name : Option String) : String :=
  match name with
  | some t => s!"Some({t})"
  | none => "None"

end TxnPath
