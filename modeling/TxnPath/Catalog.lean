import TxnPath.Error
import TxnPath.PartitionSet

/-!
# The catalog

Tables with their partitioning, and stored procedures with their statements. Look-ups take the first
entry that matches. `Catalog.validate` refuses a catalog that the other components could not work
with: no partitions, repeated numbers, a routing parameter that does not exist, an unknown table.
-/

set_option autoImplicit false

namespace TxnPath

/-- What a statement does to its tables. -/
inductive QueryType where
  | select
  | insert
  | update
  | delete
  deriving DecidableEq

/-- Whether nothing is written. -/
def QueryType.isReadOnly : QueryType → Bool
  | .select => true
  | _ => false

/-- A column of a table, by name. -/
structure ColumnRef where
  table : String
  column : String
  deriving DecidableEq

/-- A statement of a procedure. -/
structure Statement where
  /-- Its number within the procedure. -/
  id : StatementId
  /-- Its name. -/
  name : String
  /-- What it does. -/
  queryType : QueryType
  /-- The tables it uses. -/
  tables : List String
  /-- For each parameter the column that it is compared with or assigned to, if there is one. -/
  params : List (Option ColumnRef)
  deriving DecidableEq

/-- Whether a statement writes nothing. -/
def Statement.isReadOnly (s : Statement) : Bool := s.queryType.isReadOnly

/-- A parameter of a procedure. -/
structure ProcedureParam where
  name : String
  /-- Whether it takes a list. -/
  isArray : Bool
  deriving DecidableEq

/-- A stored procedure. -/
structure Procedure where
  /-- Its number. -/
  id : ProcedureId
  /-- Its name. -/
  name : String
  /-- Its parameters. -/
  params : List ProcedureParam
  /-- Its statements. -/
  statements : List Statement
  /-- Whether it belongs to the system. -/
  isSystem : Bool
  /-- Whether it is known to stay within one partition. -/
  singlePartition : Bool
  /-- The parameter that selects the base partition. -/
  routingParam : Option Nat
  deriving DecidableEq

namespace Procedure

/-- The statement of a number: the one at that position if it has that number, else the first that
has it. -/
def statement? (p : Procedure) (id : StatementId) : Option Statement :=
  match p.statements[id]? with
  | some s => if s.id = id then some s else p.statements.find? fun s => s.id = id
  | none => p.statements.find? fun s => s.id = id

/-- The first statement of a name. -/
def statementNamed? (p : Procedure) (name : String) : Option Statement :=
  p.statements.find? fun s => s.name = name

/-- Whether no statement writes. -/
def isReadOnly (p : Procedure) : Bool := p.statements.all Statement.isReadOnly

end Procedure

/-- How the rows of a table are spread. -/
inductive Partitioning where
  /-- Every partition has all rows. -/
  | replicated
  /-- A row lives at the home of its value in a column. -/
  | hash (column : String)
  deriving DecidableEq

/-- A table. -/
structure Table where
  name : String
  columns : List String
  primaryKey : List String
  partitioning : Option Partitioning
  deriving DecidableEq

namespace Table

/-- Whether every partition has all rows. -/
def isReplicated (t : Table) : Bool := t.partitioning == some .replicated

/-- The column that decides where a row lives. -/
def partitionColumn? (t : Table) : Option String :=
  match t.partitioning with
  | some (.hash column) => some column
  | _ => none

end Table

/-- Tables and procedures of a partitioned store. -/
structure Catalog where
  /-- The number of partitions. -/
  partitions : Nat
  tables : List Table
  procedures : List Procedure
  deriving DecidableEq

namespace Catalog

/-- The first procedure of a number. -/
def procedure (c : Catalog) (id : ProcedureId) : Except Error Procedure :=
  match c.procedures.find? fun p => p.id = id with
  | some p => .ok p
  | none => .error (.catalog (.procedureId id))

/-- The first procedure of a name. -/
def procedureNamed (c : Catalog) (name : String) : Except Error Procedure :=
  match c.procedures.find? fun p => p.name = name with
  | some p => .ok p
  | none => .error (.catalog (.procedureName name))

/-- The first table of a name. -/
def table? (c : Catalog) (name : String) : Option Table := c.tables.find? fun t => t.name = name

/-- All partitions. -/
def allPartitions (c : Catalog) : PartitionSet := .below c.partitions

/-- Checks the statements of a procedure in order, given the numbers of those before. -/
def checkStatements (c : Catalog) (p : Procedure) :
    List StatementId → List Statement → Except CatalogError Unit
  | _, [] => .ok ()
  | seen, s :: rest =>
    if s.id ∈ seen then .error (.duplicateStatement p.name s.id)
    else
      match s.tables.find? fun name => (c.table? name).isNone with
      | some name => .error (.tableOfStatement p.name s.name name)
      | none => checkStatements c p (s.id :: seen) rest

/-- Checks procedures in order, given the numbers of those before. -/
def checkProcedures (c : Catalog) : List ProcedureId → List Procedure → Except CatalogError Unit
  | _, [] => .ok ()
  | seen, p :: rest =>
    if p.id ∈ seen then .error (.duplicateProcedure p.id)
    else
      match p.routingParam.filter fun i => p.params.length ≤ i with
      | some i => .error (.routingParameter p.name i)
      | none =>
        match checkStatements c p [] p.statements with
        | .error e => .error e
        | .ok () => checkProcedures c (p.id :: seen) rest

/-- The first thing that is wrong with a catalog, if there is one. -/
def validate (c : Catalog) : Except Error Unit :=
  if c.partitions = 0 then .error (.catalog .zeroPartitions)
  else
    match checkProcedures c [] c.procedures with
    | .error e => .error (.catalog e)
    | .ok () => .ok ()

end Catalog

end TxnPath
