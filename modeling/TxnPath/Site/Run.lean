import TxnPath.Site.Basic

/-!
# Running transactions at a site

`Site.execute` runs one batch as one round: it registers the tasks, sends those without inputs to the
executors and every other once its inputs are complete, waits for all results, and records the
batch's queries in the forecast. `Site.prepare` asks all partitions that take part to acknowledge, and
`Site.finish` commits or rolls back, closes the forecast and answers the client.
-/

set_option autoImplicit false

namespace TxnPath.Site

variable {R : Type} [Scalar R]

/-- Applies a step to the transaction at several partitions, in order. -/
def atEach (step : Transaction → Nat → Except Fault Transaction) (t : Transaction) (ps : List Nat) :
    Except Fault Transaction := ps.foldlM step t

/-- Adds tasks to the round. Gives those that are not blocked. -/
def addTasks : Transaction → List Task → Except Fault (Transaction × List Task)
  | t, [] => .ok (t, [])
  | t, task :: rest =>
    match t.addTask task with
    | .error f => .error f
    | .ok (t, isBlocked) =>
      match addTasks t rest with
      | .error f => .error f
      | .ok (t, ready) => .ok (t, if isBlocked then ready else task :: ready)

/-- Sends one task to the executor of its partition and takes in its results. A failure is recorded
as the transaction's error. -/
def dispatch (s : Site R) (t : Transaction) (task : Task) (token : Nat) :
    Except Fault (Site R × Transaction × Except TxnError Unit) :=
  match t.takeInputs task with
  | .error f => .error f
  | .ok (t, inputs) =>
    let batch := task.toBatch inputs s.lastCommitted? token
    let answer := s.engine.execute s.journal task.destination batch
    let s := { s with journal := s.journal ++ [.execute task.destination batch] }
    match answer with
    | .error failure => .ok (s, t.fail (.engine failure), .error (.engine failure))
    | .ok deliveries =>
      match deliveries.foldlM (fun t (d, table) => t.addResult ⟨task.destination, d, table⟩) t with
      | .error f => .error f
      | .ok t => .ok (s, t, .ok ())

/-- Sends tasks in order, up to the first failure. -/
def dispatchAll (token : Nat) : Site R → Transaction → List Task →
    Except Fault (Site R × Transaction × Except TxnError Unit)
  | s, t, [] => .ok (s, t, .ok ())
  | s, t, task :: rest =>
    match s.dispatch t task token with
    | .error f => .error f
    | .ok (s, t, .error e) => .ok (s, t, .error e)
    | .ok (s, t, .ok ()) => dispatchAll token s t rest

/-- Sends tasks, then those that could go on meanwhile, and so on for at most `fuel` waves. Every wave
sends some task for the first time, so that as many waves as there are tasks are enough. -/
def dispatchWaves (token : Nat) : Nat → Site R → Transaction → List Task →
    Except Fault (Site R × Transaction × Except TxnError Unit)
  | 0, s, t, _ => .ok (s, t, .ok ())
  | _ + 1, s, t, [] => .ok (s, t, .ok ())
  | fuel + 1, s, t, task :: rest =>
    match dispatchAll token s t (task :: rest) with
    | .error f => .error f
    | .ok (s, t, .error e) => .ok (s, t, .error e)
    | .ok (s, t, .ok ()) =>
      let (t, ready) := t.takeUnblocked
      dispatchWaves token fuel s t ready

/-- Records a batch in the forecast of a transaction, if it has one. -/
def recordBatch (s : Site R) (forecast : Option (Forecast R)) (queries : List Query) :
    Except Fault (Site R × Option (Forecast R) × Except TxnError Unit) :=
  match s.forecaster, forecast with
  | some f, some forecast =>
    match f.advance forecast queries with
    | .error e => .error e
    | .ok (f, forecast, result) =>
      .ok ({ s with forecaster := some f }, some forecast,
        match result with
        | .error e => .error (.core e)
        | .ok _ => .ok ())
  | _, forecast => .ok (s, forecast, .ok ())

/-- The partitions that take part in a batch of tasks. -/
def participants (base : Nat) (tasks : List Task) : List Nat :=
  ((PartitionSet.ofList (tasks.map Task.destination)).insert base).toList

/-- Begins the round of a batch at every partition that takes part, registers its tasks and starts
it. Gives the tasks that are not blocked. -/
def openRound (t : Transaction) (tasks : List Task) (token : Nat) :
    Except Fault (Transaction × List Task) := do
  let partitions := participants t.admission.base tasks
  let t ← atEach (fun t p => t.initRound p token) t partitions
  let (t, ready) ← addTasks (t.setBatchSize (Task.queries tasks).length) tasks
  let t ← atEach Transaction.startRound t partitions
  pure (t, ready)

/-- Ends the round of a batch. Gives its results. -/
def closeRound (t : Transaction) (tasks : List Task) : Except Fault (Transaction × List ResultTable) := do
  let results ← t.results
  let t ← atEach Transaction.finishRound t (participants t.admission.base tasks)
  pure (t, results)

/-- Runs a batch of tasks. Gives one result per statement. -/
def execute (s : Site R) (a : Admitted R) (tasks : List Task) :
    Except Fault (Site R × Admitted R × Except TxnError (List ResultTable)) :=
  match a.txn.abortReason, tasks.find? fun task => !a.txn.isLocal task.destination with
  | some reason, _ => .ok (s, a, .error (.aborted a.txn.admission.txn reason))
  | none, some task => .ok (s, a, .error (.notLocal task.destination))
  | none, none => do
    let token := s.nextToken
    let s := { s with nextToken := token + 1 }
    let (t, ready) ← openRound a.txn tasks token
    let (s, t, sent) ← dispatchWaves token (tasks.length + 1) s t ready
    match sent with
    | .error e => pure (s, { a with txn := t }, .error e)
    | .ok () =>
      match t.wait s.config.latchTimeout with
      | (_, .never) => throw .endlessWait
      | (t, .failed e) => pure (s, { a with txn := t }, .error e)
      | (t, .ready) =>
        let (t, results) ← closeRound t tasks
        let (s, forecast, recorded) ← s.recordBatch a.forecast (Task.queries tasks)
        match recorded with
        | .error e => pure (s, ⟨t, forecast⟩, .error e)
        | .ok () => pure (s, ⟨t.setLastResults results, forecast⟩, .ok results)

/-- The partitions that a transaction ran fragments at, and its base partition. -/
def executedPartitions (t : Transaction) : PartitionSet := t.touchedPartitions.insert t.admission.base

/-- Asks every partition that takes part to acknowledge; those hosted here do. A transaction without
a prepare callback has nobody to ask. -/
def prepare (t : Transaction) : Except Fault (Transaction × Except TxnError PrepareOutcome) :=
  let t := t.expectPrepare (executedPartitions t)
  match t.prepare with
  | none => .ok (t, .ok .ready)
  | some c =>
    let acknowledged := c.expected.filter t.isLocal
    let t := acknowledged.toList.foldl Transaction.markDone t
    match t.acknowledgePrepare acknowledged with
    | .error f => .error f
    | .ok t =>
      match t.prepareOutcome?.getD .ready with
      | .ready => .ok (t, .ok .ready)
      | outcome => .ok (t, .error (.prepare t.admission.txn outcome.name))

/-- Prepares a transaction that is to be committed, unless one partition was predicted or an error has
been recorded. Gives why it cannot be committed, if it cannot. -/
def verdict (t : Transaction) (commit : Bool) : Except Fault (Transaction × Option String) :=
  if commit && !t.hasFailed && !t.admission.prediction.isSingle then
    match prepare t with
    | .error f => .error f
    | .ok (t, .error e) => .ok (t, some e.message)
    | .ok (t, .ok _) => .ok (t, none)
  else .ok (t, t.abortReason)

/-- The calls that settle the work under the last undo token at the hosted partitions of a
transaction. -/
def settlement (t : Transaction) (committed : Bool) : List EngineCall :=
  match t.undoToken with
  | none => []
  | some token =>
    ((executedPartitions t).filter t.isLocal).toList.map fun p =>
      if committed then .release p token else .undo p token

/-- Closes the forecast of a transaction, if it has one. -/
def closeForecast (s : Site R) (forecast : Option (Forecast R)) (committed : Bool) :
    Except Fault (Site R) :=
  match s.forecaster, forecast with
  | some f, some forecast =>
    (f.close forecast committed).map fun (f, _) => { s with forecaster := some f }
  | _, _ => .ok s

/-- Commits or rolls back a transaction and answers the client. -/
def finish (s : Site R) (a : Admitted R) (commit : Bool) :
    Except Fault (Site R × Admitted R × Response) :=
  match verdict a.txn commit with
  | .error f => .error f
  | .ok (t, reason) =>
    let committed := commit && reason.isNone
    let id := t.admission.txn
    let s := { s with
      journal := s.journal ++ settlement t committed
      lastCommitted := if committed then max s.lastCommitted id else s.lastCommitted }
    let (t, results) := t.takeLastResults
    match s.closeForecast a.forecast committed with
    | .error f => .error f
    | .ok s =>
      .ok (s, ⟨t.finish, none⟩,
        if committed then .committed id t.admission.client results
        else .aborted id t.admission.client (reason.getD "aborted by procedure"))

/-- Gives up a transaction that nobody will finish: its estimates go back to their pool. -/
def abandon (s : Site R) (a : Admitted R) : Except Fault (Site R) :=
  match s.forecaster, a.forecast with
  | some f, some forecast => (f.discard forecast).map fun f => { s with forecaster := some f }
  | _, _ => .ok s

end TxnPath.Site
