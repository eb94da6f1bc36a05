import TxnPath.Txn.Basic

/-!
# The steps of a transaction

A round begins at each partition that takes part (`initRound`), collects tasks (`addTask`), starts
(`startRound`), takes in results (`addResult`), is waited for (`wait`) and ends (`finishRound`). Only
the base partition keeps the books; the others just keep their phase.

The first error recorded against a transaction is kept (`fail`): it opens the latch, and every later
result is dropped.
-/

set_option autoImplicit false

namespace TxnPath

/-- A span of milliseconds as messages show it. -/
def spanText (ms : Nat) : String :=
  if ms = 0 then "0ns"
  else if ms < 1000 then s!"{ms}ms"
  else if ms % 1000 = 0 then s!"{ms / 1000}s"
  else
    let fraction := ((toString (1000 + ms % 1000)).toList.drop 1).reverse.dropWhile (· = '0')
    s!"{ms / 1000}." ++ String.ofList fraction.reverse ++ "s"

/-- What a wait for results comes to. -/
inductive WaitResult where
  /-- The results are there. -/
  | ready
  /-- The transaction has an error to report. -/
  | failed (error : TxnError)
  /-- Nothing will ever end the wait. -/
  | never
  deriving DecidableEq

namespace Transaction

/-- Begins a round at a partition. At the base partition the books are cleared. -/
def initRound (t : Transaction) (p undoToken : Nat) : Except Fault Transaction :=
  match t.phase p with
  | .error f => .error f
  | .ok phase =>
    if !t.round.queued.isEmpty then .error (t.fault (.resultsBeforeInit t.round.queued.length))
    else if !phase.isIdle then .error (t.fault (.cannotInit p phase.text))
    else
      let t := if p = t.admission.base then t.setRound .empty else t
      .ok { t.setPhase p .initialized with undoToken := some undoToken }

/-- Begins a round at a partition without touching the books. -/
def fastInitRound (t : Transaction) (p undoToken : Nat) : Except Fault Transaction :=
  (t.phase p).map fun _ => { t.setPhase p .initialized with undoToken := some undoToken }

/-- Sets the number of statements of the batch. -/
def setBatchSize (t : Transaction) (n : Nat) : Transaction :=
  { t with round := { t.round with batchSize := n } }

/-- Starts the round at a partition. -/
def startRound (t : Transaction) (p : Nat) : Except Fault Transaction :=
  match t.phase p with
  | .error f => .error f
  | .ok phase =>
    if phase ≠ .initialized then .error (t.fault (.startOutOfTurn p))
    else
      let t := t.setPhase p .started
      if p ≠ t.admission.base then .ok t
      else (t.round.start t.admission.txn t.pendingError.isSome).map t.setRound

/-- Ends the round at a partition. -/
def finishRound (t : Transaction) (p : Nat) : Except Fault Transaction :=
  match t.phase p with
  | .error f => .error f
  | .ok phase =>
    if t.round.expected ≠ t.round.received then .error (t.fault .outstandingDependencies)
    else if !t.round.queued.isEmpty then .error (t.fault .resultsBeforeFinish)
    else if phase ≠ .started then .error (t.fault (.finishOutOfTurn p))
    else
      let t := t.setPhase p .finished
      if p ≠ t.admission.base then .ok t
      else if t.round.latch.all Latch.isOpen then
        .ok { t with round := { t.round with latch := none } }
      else .error (t.fault .latchNotDrained)

/-- Ends a round without looking at the books. -/
def fastFinishRound (t : Transaction) (p : Nat) : Except Fault Transaction :=
  (t.phase p).map fun _ => t.setPhase p .finished

/-- Adds a task to the round. Gives whether it is blocked. -/
def addTask (t : Transaction) (task : Task) : Except Fault (Transaction × Bool) :=
  match t.phase t.admission.base with
  | .error f => .error f
  | .ok phase =>
    if phase ≠ .initialized then .error (t.fault .workOutOfTurn)
    else
      match t.touched.add? task.destination task.fragments.length with
      | .error f => .error f
      | .ok touched =>
        match t.round.addTask task with
        | .error cause => .error (t.fault cause)
        | .ok (r, isBlocked) => .ok ({ t with touched := touched }.setRound r, isBlocked)

/-- Takes in a result, or queues it if the round has not started yet. A transaction that has failed
or is finished takes none. -/
def addResult (t : Transaction) (x : Delivery) : Except Fault Transaction :=
  match t.phase t.admission.base with
  | .error f => .error f
  | .ok phase =>
    if t.isFinished || t.hasFailed then .ok t
    else
      match phase with
      | .initialized =>
        match t.round.enqueue x with
        | .error cause => .error (t.fault cause)
        | .ok r => .ok (t.setRound r)
      | .started => (t.round.accept t.admission.txn x).map t.setRound
      | .uninitialized | .finished => .error (t.fault (.resultOutOfTurn x.dependency phase.text))

/-- Hands out the tasks that can go on. -/
def takeUnblocked (t : Transaction) : Transaction × List Task :=
  ({ t with round := { t.round with unblocked := [] } }, t.round.unblocked)

/-- Whether a task waits for inputs. -/
def isBlocked (t : Transaction) (task : TaskId) : Bool := t.round.blocked.any fun b => b.id == task

/-- Takes the tables that a task consumes, those of the base partition first. -/
def takeInputs (t : Transaction) (task : Task) :
    Except Fault (Transaction × List (DependencyId × List ResultTable)) :=
  (Round.takeInputs t.admission.txn t.admission.base task.id t.round [] task.fragments).map
    fun (r, taken) => (t.setRound r, taken)

/-- The results of the batch, one per statement. -/
def results (t : Transaction) : Except Fault (List ResultTable) := t.round.results t.admission.txn

/-- Records an error. Only the first one is kept; it opens the latch. -/
def fail (t : Transaction) (e : TxnError) : Transaction :=
  if t.hasFailed then t
  else
    { t with
      abortReason := some e.message
      pendingError := some e
      round := { t.round with latch := t.round.latch.map Latch.releaseAll } }

/-- Takes the error to report, if there is one. -/
def takeError (t : Transaction) : Transaction × Option TxnError :=
  ({ t with pendingError := none }, t.pendingError)

/-- Waits for all results, if nobody else does anything meanwhile. A wait that times out is recorded
as an error. -/
def wait (t : Transaction) (timeout : Option Nat) : Transaction × WaitResult :=
  match t.takeError with
  | (t, some e) => (t, .failed e)
  | (t, none) =>
    match t.round.latch with
    | none => (t, .ready)
    | some latch =>
      match latch.wait timeout with
      | .ready => (t, .ready)
      | .never => (t, .never)
      | .timedOut =>
        -- Recording the error makes the transaction drop whatever result comes later.
        let reason := s!"timed out after {spanText (timeout.getD 0)} waiting for dependencies"
        let e := TxnError.aborted t.admission.txn reason
        ((t.fail e).takeError.1, .failed e)

/-- Notes that a partition has been prepared. -/
def markDone (t : Transaction) (p : Nat) : Transaction := { t with done := t.done.insert p }

/-- Expects further partitions to acknowledge, if there is a prepare callback. -/
def expectPrepare (t : Transaction) (partitions : PartitionSet) : Transaction :=
  { t with prepare := t.prepare.map fun c => c.expect partitions }

/-- Records an acknowledgement with the prepare callback, if there is one. -/
def acknowledgePrepare (t : Transaction) (partitions : PartitionSet) : Except Fault Transaction :=
  match t.prepare with
  | none => .ok t
  | some c => (c.acknowledge partitions).map fun c => { t with prepare := some c }

/-- Records a refusal with the prepare callback, if there is one. -/
def refusePrepare (t : Transaction) : Transaction :=
  { t with prepare := t.prepare.map PrepareCallback.refuse }

/-- Where the prepare callback stands, if there is one. -/
def prepareOutcome? (t : Transaction) : Option PrepareOutcome := t.prepare.map PrepareCallback.outcome

/-- Keeps the results of a batch. -/
def setLastResults (t : Transaction) (results : List ResultTable) : Transaction :=
  { t with lastResults := results }

/-- Hands out the results of the last batch. -/
def takeLastResults (t : Transaction) : Transaction × List ResultTable :=
  ({ t with lastResults := [] }, t.lastResults)

/-- Finishes the transaction: everything pooled is given back and no error is left to report. -/
def finish (t : Transaction) : Transaction :=
  { t.setRound .empty with
    prepare := none
    preparePool := if t.prepare.isSome then t.preparePool.release else t.preparePool
    pendingError := none
    isFinished := true
    phases := t.phases.map fun e => (e.1, .uninitialized) }

end Transaction

end TxnPath
