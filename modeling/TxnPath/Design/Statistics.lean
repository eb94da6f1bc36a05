import TxnPath.Catalog
import TxnPath.Design.Error
import TxnPath.Histogram.Basic
import TxnPath.Trace

/-!
# Workload statistics

What a design is based on: the size of every table, whether the workload only reads it, and how often
statements use it.
-/

set_option autoImplicit false

namespace TxnPath

open Std (ExtTreeMap)

/-- Values by name, in ascending order of the names. -/
abbrev ByName (α : Type) := ExtTreeMap String α compare

/-- What is known about a table. -/
structure TableStatistics where
  /-- The size of all its rows, in bytes. -/
  size : Nat
  /-- Whether no statement of the workload writes it. -/
  isReadOnly : Bool
  deriving DecidableEq

/-- What is known about a workload. -/
structure Statistics where
  /-- What is known about each table. -/
  tables : ByName TableStatistics
  /-- How often statements used each table. -/
  access : Histogram String

namespace Statistics

/-- The statistics of an empty workload over a catalog's tables; a table without a given size is
empty. -/
def ofSizes (c : Catalog) (sizes : String → Option Nat) : Statistics :=
  { tables := c.tables.foldl (fun m t => m.insert t.name ⟨(sizes t.name).getD 0, true⟩) ∅
    access := ∅ }

/-- Counts one use of a table by a statement. -/
def use (s : Statistics) (statement : Statement) (table : String) : Except DesignError Statistics :=
  match s.tables[table]? with
  | none => .error (.tableOfStatement statement.name table)
  | some t =>
    .ok
      { tables :=
          if statement.isReadOnly then s.tables else s.tables.insert table { t with isReadOnly := false }
        access := s.access.add table 1 }

/-- Counts a query of a procedure. -/
def addQuery (p : Procedure) (s : Statistics) (q : Query) : Except DesignError Statistics :=
  match p.statement? q.statement with
  | none => .error (.unknownStatement p.name q.statement)
  | some statement => statement.tables.foldlM (fun s table => s.use statement table) s

/-- Counts a trace. -/
def addTrace (c : Catalog) (s : Statistics) (t : Trace) : Except DesignError Statistics :=
  match c.procedure t.procedure with
  | .error e => .error (.core e)
  | .ok p => t.queries.foldlM (addQuery p) s

/-- The statistics of a workload. -/
def ofWorkload (c : Catalog) (traces : List Trace) (sizes : String → Option Nat) :
    Except DesignError Statistics :=
  traces.foldlM (addTrace c) (ofSizes c sizes)

/-- What is known about a table. -/
def table (s : Statistics) (name : String) : Except DesignError TableStatistics :=
  match s.tables[name]? with
  | some t => .ok t
  | none => .error (.missingStatistics name)

/-- How often statements used a table. -/
def accessCount (s : Statistics) (table : String) : Nat := s.access.getD table 0

end Statistics

end TxnPath
