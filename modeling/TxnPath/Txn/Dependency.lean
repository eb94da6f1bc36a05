import TxnPath.Fault
import TxnPath.Pool
import TxnPath.StableSort
import TxnPath.Work.Task

/-!
# Dependency records

The record of one dependency of one statement of a batch: the partitions that owe a result, once per
producing fragment, the results that have come, and the tasks that are blocked until all of them
have. It hands out its blocked tasks once. Records are pooled.
-/

set_option autoImplicit false

namespace TxnPath

/-- What is known about one dependency of one statement. -/
structure DependencyRecord where
  /-- The position of the statement in the batch. -/
  statement : Nat
  /-- The dependency, while the record is in use. -/
  dependency : Option DependencyId
  /-- The partitions that owe a result, in order of registration. -/
  producers : List Nat
  /-- The results that have come, in order, with the partitions that they came from. -/
  results : List (Nat × ResultTable)
  /-- The tasks that are blocked, in order of registration. -/
  blocked : List TaskId
  /-- Whether the blocked tasks have been handed out. -/
  isReleased : Bool
  deriving DecidableEq

namespace DependencyRecord

/-- A record that is not in use. -/
def new : DependencyRecord := ⟨0, none, [], [], [], false⟩

instance : Inhabited DependencyRecord := ⟨new⟩

instance : Poolable DependencyRecord where
  isInitialized r := r.dependency.isSome
  finish r := { r with
    statement := 0
    dependency := none
    producers := []
    results := []
    blocked := []
    isReleased := false }

/-- A record in use that nothing has happened to yet. -/
def fresh (statement : Nat) (dependency : DependencyId) : DependencyRecord :=
  ⟨statement, some dependency, [], [], [], false⟩

/-- Takes the record into use. -/
def start (r : DependencyRecord) (statement : Nat) (dependency : DependencyId) :
    Except Fault DependencyRecord :=
  if r.dependency.isSome then .error .dependencyReused
  else .ok { r with statement := statement, dependency := some dependency }

/-- Whether the record is that of a dependency of a statement. -/
def isFor (r : DependencyRecord) (statement : Nat) (dependency : DependencyId) : Bool :=
  r.statement == statement && r.dependency == some dependency

/-- Registers a fragment that produces a result at a partition. -/
def addProducer (r : DependencyRecord) (p : Nat) : DependencyRecord :=
  { r with producers := r.producers ++ [p] }

/-- Takes a result from a partition that owes one. -/
def addResult (r : DependencyRecord) (p : Nat) (table : ResultTable) : Except Fault DependencyRecord :=
  if p ∈ r.producers then .ok { r with results := r.results ++ [(p, table)] }
  else .error (.foreignResult p r.dependency)

/-- Whether there are producers and as many results. -/
def isComplete (r : DependencyRecord) : Bool :=
  !r.producers.isEmpty && r.results.length == r.producers.length

/-- The first result that came. -/
def firstResult? (r : DependencyRecord) : Option ResultTable := r.results.head?.map Prod.snd

/-- The results, those of the base partition first, otherwise as they came. -/
def orderedResults (r : DependencyRecord) (base : Nat) : List ResultTable :=
  (stableSort (fun a b => a.1 == base || b.1 != base) r.results).map Prod.snd

/-- Takes the results out. -/
def takeResults (r : DependencyRecord) (base : Nat) : DependencyRecord × List ResultTable :=
  ({ r with results := [] }, r.orderedResults base)

/-- Registers a task that waits for the results. -/
def block (r : DependencyRecord) (task : TaskId) : DependencyRecord :=
  if task ∈ r.blocked then r else { r with blocked := r.blocked ++ [task] }

/-- Whether there are blocked tasks to hand out. -/
def hasReadyTasks (r : DependencyRecord) : Bool :=
  !r.isReleased && !r.blocked.isEmpty && r.isComplete

/-- Hands out the blocked tasks, if they can go on and have not been handed out yet. -/
def release (r : DependencyRecord) : DependencyRecord × Option (List TaskId) :=
  if r.hasReadyTasks then ({ r with blocked := [], isReleased := true }, some r.blocked) else (r, none)

end DependencyRecord

end TxnPath
