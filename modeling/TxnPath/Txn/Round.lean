import TxnPath.Txn.Dependency
import TxnPath.Txn.Latch

/-!
# The bookkeeping of a round

A round runs one batch of statements. While it is prepared, tasks register what they produce and
what they wait for (`Round.addTask`); results that come early are queued. Starting the round fixes
the order of outputs, takes in the queued results and arms a latch for the others (`Round.start`).

A result is matched to the oldest fragment that owes one for its partition and dependency
(`Round.accept`). It completes the record of that fragment's statement, and a record that becomes
complete lets go on those of its blocked tasks whose other inputs are complete too.
-/

set_option autoImplicit false

namespace TxnPath

/-- A fragment that owes a result. -/
structure Awaited where
  /-- The partition that runs it. -/
  partition : Nat
  /-- The dependency of the result. -/
  dependency : DependencyId
  /-- The position of its statement in the batch. -/
  statement : Nat
  deriving DecidableEq

/-- A result on its way. -/
structure Delivery where
  /-- The partition that it comes from. -/
  partition : Nat
  /-- The dependency that it belongs to. -/
  dependency : DependencyId
  /-- The result itself. -/
  table : ResultTable
  deriving DecidableEq

/-- Whether a fragment owes a result like this one. -/
def Awaited.accepts (a : Awaited) (x : Delivery) : Bool :=
  a.partition == x.partition && a.dependency == x.dependency

/-- The bookkeeping of a round. -/
structure Round where
  /-- The number of statements of the batch. -/
  batchSize : Nat
  /-- The dependency records, one per statement and dependency. -/
  records : List DependencyRecord
  /-- The dependency of each statement's output, once the round has started. -/
  order : List DependencyId
  /-- The dependencies that tasks consume, each once. -/
  internal : List DependencyId
  /-- The fragments that owe results, oldest first. -/
  awaited : List Awaited
  /-- The results that came before the round started, in order. -/
  queued : List Delivery
  /-- How many results have been registered. -/
  expected : Nat
  /-- How many results have been taken in. -/
  received : Nat
  /-- The latch that the transaction waits for, once the round has started. -/
  latch : Option Latch
  /-- The tasks that wait for inputs. -/
  blocked : List Task
  /-- The tasks that can go on, oldest first. -/
  unblocked : List Task
  deriving DecidableEq

namespace Round

/-- The bookkeeping before anything is registered. -/
def empty : Round := ⟨0, [], [], [], [], [], 0, 0, none, [], []⟩

instance : Inhabited Round := ⟨empty⟩

/-- The record of a dependency of a statement. -/
def record? (r : Round) (statement : Nat) (dependency : DependencyId) : Option DependencyRecord :=
  r.records.find? fun e => e.isFor statement dependency

/-- Changes the record of a dependency of a statement, a fresh one if there is none yet. -/
def updateRecord (r : Round) (statement : Nat) (dependency : DependencyId)
    (change : DependencyRecord → DependencyRecord) : Round :=
  if (r.record? statement dependency).isSome then
    { r with
      records := r.records.map fun e => if e.isFor statement dependency then change e else e }
  else { r with records := r.records ++ [change (.fresh statement dependency)] }

/-- Registers what a fragment at a partition produces. -/
def registerOutput (p : Nat) (r : Round) (f : Fragment) : Round :=
  match f.output with
  | none => r
  | some d =>
    { r.updateRecord f.index d fun e => e.addProducer p with
      expected := r.expected + 1
      awaited := r.awaited ++ [⟨p, d, f.index⟩] }

/-- Registers what a fragment of a task waits for. -/
def registerInput (task : TaskId) (r : Round) (f : Fragment) : Round :=
  match f.input with
  | none => r
  | some d =>
    { r.updateRecord f.index d fun e => e.block task with
      internal := if d ∈ r.internal then r.internal else r.internal ++ [d] }

/-- Registers a task. Gives whether it is blocked. -/
def addTask (r : Round) (t : Task) : Except RoundFault (Round × Bool) :=
  let r := t.fragments.foldl (registerOutput t.destination) r
  if t.hasInputs then
    let r := t.fragments.foldl (registerInput t.id) r
    if r.blocked.any fun b => b.id == t.id then .error (.duplicateTask t.id)
    else .ok ({ r with blocked := r.blocked ++ [t] }, true)
  else .ok (r, false)

/-- Queues a result for the start of the round. -/
def enqueue (r : Round) (x : Delivery) : Except RoundFault Round :=
  if r.queued.any fun y => y.partition == x.partition && y.dependency == x.dependency then
    .error (.duplicateResult x.partition x.dependency)
  else .ok { r with queued := r.queued ++ [x] }

/-- Whether all inputs of a task are complete. -/
def inputsReady (r : Round) (t : Task) : Bool :=
  t.fragments.all fun f =>
    match f.input with
    | none => true
    | some d => (r.record? f.index d).any DependencyRecord.isComplete

/-- Lets a blocked task go on if all its inputs are complete. -/
def unblock (r : Round) (task : TaskId) : Round :=
  match r.blocked.find? fun t => t.id == task with
  | none => r
  | some t =>
    if r.inputsReady t then
      { r with blocked := r.blocked.filter fun t => t.id != task, unblocked := r.unblocked ++ [t] }
    else r

/-- Takes in a result. -/
def accept (txn : TxnId) (r : Round) (x : Delivery) : Except Fault Round :=
  match r.awaited.find? fun a => a.accepts x with
  | none => .error (.round txn (.unexpectedResult x.partition x.dependency))
  | some a =>
    match r.record? a.statement x.dependency with
    | none => .error (.round txn (.unregisteredDependency x.dependency a.statement))
    | some e =>
      match e.addResult x.partition x.table with
      | .error f => .error f
      | .ok e =>
        -- Handing out happens once per record, so it waits until some task is blocked.
        let (e, released) := if r.blocked.isEmpty then (e, none) else e.release
        let r := { r.updateRecord a.statement x.dependency fun _ => e with
          awaited := r.awaited.erase a
          received := r.received + 1
          latch := r.latch.map Latch.countDown }
        .ok ((released.getD []).foldl unblock r)

/-- The dependencies of the batch's statements that no task consumes, by statement and number. -/
def outputs (r : Round) : List DependencyId :=
  let candidates := r.records.filterMap fun e =>
    e.dependency.bind fun d =>
      if e.statement < r.batchSize ∧ d ∉ r.internal then some (e.statement, d) else none
  (stableSort (fun a b => a.1 < b.1 || (a.1 == b.1 && a.2 ≤ b.2)) candidates).map Prod.snd

/-- Starts the round; `failed` says that the transaction has an error to report, so that nothing is
waited for. -/
def start (txn : TxnId) (r : Round) (failed : Bool) : Except Fault Round :=
  if !r.order.isEmpty then .error (.round txn .orderAlreadySet)
  else if r.batchSize = 0 then .error (.round txn .emptyBatch)
  else if r.outputs.length ≠ r.batchSize then .error (.round txn .outputMismatch)
  else
    -- There is no latch yet: what came early is subtracted from what the latch waits for.
    match r.queued.foldlM (accept txn) { r with order := r.outputs, queued := [] } with
    | .error f => .error f
    | .ok r =>
      if r.expected < r.received then .error (.round txn (.surplusResults r.received r.expected))
      else if r.latch.isSome then .error (.round txn .latchAlreadyArmed)
      else .ok { r with latch := some ⟨if failed then 0 else r.expected - r.received⟩ }

/-- Takes the inputs of fragments of a task, each dependency once, given those taken before. -/
def takeInputs (txn : TxnId) (base : Nat) (task : TaskId) :
    Round → List (DependencyId × List ResultTable) → List Fragment →
      Except Fault (Round × List (DependencyId × List ResultTable))
  | r, taken, [] => .ok (r, taken)
  | r, taken, f :: rest =>
    match f.input with
    | none => takeInputs txn base task r taken rest
    | some d =>
      if taken.any fun e => e.1 == d then takeInputs txn base task r taken rest
      else
        match r.record? f.index d with
        | none => .error (.round txn (.unknownInput task d))
        | some e =>
          if e.producers.length = e.results.length then
            let (e, tables) := e.takeResults base
            takeInputs txn base task (r.updateRecord f.index d fun _ => e) (taken ++ [(d, tables)]) rest
          else .error (.round txn (.incompleteInput d f.index))

/-- The result of the statement at a position, under its output dependency. -/
def resultAt (txn : TxnId) (r : Round) (position : DependencyId × Nat) : Except Fault ResultTable :=
  match r.record? position.2 position.1 with
  | none => .error (.round txn (.missingOutput position.1 position.2))
  | some e =>
    match e.firstResult? with
    | none => .error (.round txn (.missingResult position.2 position.1))
    | some table => .ok table

/-- The results of the batch, one per statement. -/
def results (txn : TxnId) (r : Round) : Except Fault (List ResultTable) :=
  r.order.zipIdx.mapM (resultAt txn r)

end Round

end TxnPath
