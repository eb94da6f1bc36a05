import TxnPath.Design.Hints
import TxnPath.Design.Plan
import TxnPath.Fault
import TxnPath.Mapping

/-!
# Planning by primary keys

A table is replicated if the hints say so, if it is only read and small enough, or if it has no
primary key; otherwise it is hashed by the first column of its primary key. A procedure that the
system does not own may be given the parameter that is most strongly correlated with partitioning
columns. It stays within one partition if every statement only reads replicated tables, or binds the
partitioning column of each table it uses to a value correlated with the routing parameter.
-/

set_option autoImplicit false

namespace TxnPath

/-- All that a plan is made from. -/
structure Planner (R : Type) where
  catalog : Catalog
  statistics : Statistics
  mappings : MappingTable R
  hints : Hints R

namespace Planner

variable {R : Type} [Scalar R]

/-- The size of a table as a share of a partition's memory; zero if memory is not accounted for. -/
def share (d : Planner R) (t : TableStatistics) : R :=
  if d.hints.accountsMemory then Scalar.ratio t.size d.hints.memory else 0

/-- How a table is partitioned. -/
def method (d : Planner R) (t : Table) (s : TableStatistics) : Partitioning :=
  match t.primaryKey with
  | [] => .replicated
  | column :: _ =>
    if d.hints.forceReplication.contains t.name then .replicated
    else if d.hints.accountsMemory && s.isReadOnly && decide (d.share s ≤ d.hints.replicationLimit.getD 0)
    then .replicated
    else .hash column

/-- The share of a partition's memory that a table takes: all of it where it is replicated, else one
partition's part. -/
def load (d : Planner R) (method : Partitioning) (s : TableStatistics) : R :=
  match method with
  | .replicated => d.share s
  | .hash _ => d.share s / ((max d.catalog.partitions 1 : Nat) : R)

/-- Plans tables in order, given the plan for those before and the memory that it takes. -/
def planTables (d : Planner R) :
    List Table → ByName Partitioning → R → Except DesignError (ByName Partitioning × R)
  | [], planned, memory => .ok (planned, memory)
  | t :: rest, planned, memory =>
    match d.statistics.table t.name with
    | .error e => .error e
    | .ok s =>
      let method := d.method t s
      planTables d rest (planned.insert t.name method) (memory + d.load method s)

/-- Whether a column is what a plan hashes its table by. -/
def bindsPartitioning (plan : Plan R) (column : Option ColumnRef) : Bool :=
  column.any fun c => plan.column? c.table == some c.column

/-- The occurrences of a statement that have mappings, from zero on without a gap. No occurrence
without a gap can exceed the number of mappings. -/
def occurrences (d : Planner R) (p : Procedure) (s : Statement) : List Nat :=
  (List.range d.mappings.size).takeWhile fun i => !(d.mappings.ofStatement p.id s.id i).isEmpty

/-- Counts a mapping towards the score of its argument, if it is one of a statement parameter that is
bound to a partitioning column. Arguments that the procedure does not have get no score. -/
def tally (plan : Plan R) (s : Statement) (scores : Array R) (m : Mapping R) : Array R :=
  if bindsPartitioning plan (s.params[m.slot]?).join then
    scores.modify m.argument fun score => score + m.coefficient
  else scores

/-- How strongly each parameter of a procedure is correlated with partitioning columns. All scores are
filled in by one pass over the mappings of its statements. -/
def scores (d : Planner R) (p : Procedure) (plan : Plan R) : Array R :=
  p.statements.foldl
    (fun scores s =>
      (d.occurrences p s).foldl
        (fun scores i => (d.mappings.ofStatement p.id s.id i).foldl (tally plan s) scores) scores)
    (Array.replicate p.params.length 0)

/-- The first of several candidates with the greatest score, given the best before. -/
def bestOf (score : Nat → R) (best : Nat) : List Nat → Nat
  | [] => best
  | i :: rest => bestOf score (if score best < score i then i else best) rest

/-- The parameter that is most strongly correlated, the first of equally strong ones. -/
def bestParameter (d : Planner R) (p : Procedure) (plan : Plan R) : Nat :=
  let scores := d.scores p plan
  bestOf (fun i => scores[i]?.getD 0) 0 (List.range p.params.length)

/-- Whether a statement binds the partitioning column of a table to a value correlated with the
routing parameter. -/
def bindsRouting (d : Planner R) (p : Procedure) (s : Statement) (routing : Nat) (column : ColumnRef) :
    Bool :=
  s.params.zipIdx.any fun (bound, i) =>
    bound == some column &&
      (d.mappings.candidates p.id s.id 0 i).any fun m => m.argument == routing

/-- Whether a procedure stays within one partition. -/
def isSingle (d : Planner R) (p : Procedure) (routing : Option Nat) (plan : Plan R) : Bool :=
  p.statements.all fun s =>
    s.tables.all fun table =>
      match plan.column? table with
      | none => s.isReadOnly
      | some column => routing.any fun i => d.bindsRouting p s i ⟨table, column⟩

/-- Plans one procedure. -/
def planProcedure (d : Planner R) (plan : Plan R) (p : Procedure) : ProcedurePlan :=
  if p.isSystem then ⟨p.routingParam, p.singlePartition⟩
  else
    let routing :=
      if d.hints.searchParameters && !p.params.isEmpty then some (d.bestParameter p plan)
      else p.routingParam
    ⟨routing, d.isSingle p routing plan⟩

/-- Makes the plan. One that does not fit into a partition's memory is a fault. -/
def generate (d : Planner R) : Except Fault (Except DesignError (Plan R)) :=
  match d.planTables d.catalog.tables ∅ 0 with
  | .error e => .ok (.error e)
  | .ok (tables, memory) =>
    if memory ≤ 1 then
      let plan : Plan R := ⟨tables, ∅, memory⟩
      .ok (.ok { plan with
        procedures :=
          d.catalog.procedures.foldl (fun m p => m.insert p.name (d.planProcedure plan p)) ∅ })
    else .error (.planTooLarge (Scalar.tenths (memory * ((100 : Nat) : R))))

end Planner

end TxnPath
