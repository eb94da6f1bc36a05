import TxnPath.Design.Statistics

/-!
# Partition plans

A plan says how every table is partitioned, and by which parameter every procedure is routed.
Applying it writes this into the catalog. When it names something that the catalog does not have, what
came before stays written.
-/

set_option autoImplicit false

namespace TxnPath

/-- What a plan says about a procedure. -/
structure ProcedurePlan where
  /-- The parameter that routes it, if the plan chooses one. -/
  routingParam : Option Nat
  /-- Whether it stays within one partition. -/
  singlePartition : Bool
  deriving DecidableEq

/-- A partition plan. -/
structure Plan (R : Type) where
  /-- How each table is partitioned. -/
  tables : ByName Partitioning
  /-- How each procedure is routed. -/
  procedures : ByName ProcedurePlan
  /-- The share of a partition's memory that the plan needs. -/
  memory : R

namespace Catalog

/-- Changes the first table of a name, if there is one. -/
def updateTable? (c : Catalog) (name : String) (change : Table → Table) : Option Catalog :=
  (c.tables.findIdx? fun t => t.name == name).map fun i =>
    { c with tables := c.tables.modify i change }

/-- Changes the first procedure of a name, if there is one. -/
def updateProcedure? (c : Catalog) (name : String) (change : Procedure → Procedure) : Option Catalog :=
  (c.procedures.findIdx? fun p => p.name == name).map fun i =>
    { c with procedures := c.procedures.modify i change }

end Catalog

namespace ProcedurePlan

/-- Writes the plan for a procedure into it. A parameter that the procedure has is kept if the plan
chooses none. -/
def write (e : ProcedurePlan) (p : Procedure) : Procedure :=
  { p with
    routingParam := e.routingParam.or p.routingParam
    singlePartition := e.singlePartition }

end ProcedurePlan

namespace Plan

variable {R : Type}

/-- Whether the plan replicates a table. -/
def isReplicated (p : Plan R) (table : String) : Bool := p.tables[table]? == some .replicated

/-- The column that the plan hashes a table by, if it does. -/
def column? (p : Plan R) (table : String) : Option String :=
  match p.tables[table]? with
  | some (.hash column) => some column
  | _ => none

/-- Writes what a plan says about tables. -/
def writeTables : Catalog → List (String × Partitioning) → Catalog × Except DesignError Unit
  | c, [] => (c, .ok ())
  | c, (name, method) :: rest =>
    match c.updateTable? name fun t => { t with partitioning := some method } with
    | none => (c, .error (.plannedTable name))
    | some c => writeTables c rest

/-- Writes what a plan says about procedures. -/
def writeProcedures : Catalog → List (String × ProcedurePlan) → Catalog × Except DesignError Unit
  | c, [] => (c, .ok ())
  | c, (name, entry) :: rest =>
    match c.updateProcedure? name entry.write with
    | none => (c, .error (.plannedProcedure name))
    | some c => writeProcedures c rest

/-- Writes the plan into a catalog: the tables, then the procedures, both by ascending name, up to
the first that the catalog does not have. -/
def apply (p : Plan R) (c : Catalog) : Catalog × Except DesignError Unit :=
  match writeTables c p.tables.toList with
  | (c, .error e) => (c, .error e)
  | (c, .ok ()) => writeProcedures c p.procedures.toList

end Plan

end TxnPath
