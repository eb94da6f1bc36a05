import TxnPath.Ident

/-!
# Faults

A fault is a broken promise between components: a counter that leaves its range, a position outside
its table, a step taken out of turn. The operation that meets one stops without a result, and
nothing runs after it. Each kind is a constructor with what it is about; `Fault.message` words it.
-/

set_option autoImplicit false

namespace TxnPath

/-- Steps taken out of turn in the rounds of a transaction. -/
inductive RoundFault where
  /-- The prediction names no partition. -/
  | nothingPredicted
  /-- The base partition is not hosted by the site. -/
  | foreignBase (base : Nat)
  /-- A partition is not hosted by the site. -/
  | notHosted (partition : Nat)
  /-- Results of an earlier round are still queued. -/
  | resultsBeforeInit (count : Nat)
  /-- A round begins at a partition whose last round is still under way. -/
  | cannotInit (partition : Nat) (phase : String)
  /-- A round starts at a partition where none has begun. -/
  | startOutOfTurn (partition : Nat)
  /-- The order of outputs has been fixed already. -/
  | orderAlreadySet
  /-- The batch has no statement. -/
  | emptyBatch
  /-- The batch does not have one output per statement. -/
  | outputMismatch
  /-- More results have arrived than dependencies are registered. -/
  | surplusResults (received registered : Nat)
  /-- The latch of the round exists already. -/
  | latchAlreadyArmed
  /-- A round ends while results are outstanding. -/
  | outstandingDependencies
  /-- A round ends while results are queued. -/
  | resultsBeforeFinish
  /-- A round ends at a partition where none has started. -/
  | finishOutOfTurn (partition : Nat)
  /-- A round ends while its latch is not at zero. -/
  | latchNotDrained
  /-- Work is added while no round is open for it. -/
  | workOutOfTurn
  /-- Two blocked tasks have one number. -/
  | duplicateTask (task : TaskId)
  /-- A result is queued twice. -/
  | duplicateResult (partition : Nat) (dependency : DependencyId)
  /-- A result arrives while no round takes it. -/
  | resultOutOfTurn (dependency : DependencyId) (phase : String)
  /-- A result arrives that no fragment waits for. -/
  | unexpectedResult (partition : Nat) (dependency : DependencyId)
  /-- A result belongs to a dependency that is not registered. -/
  | unregisteredDependency (dependency : DependencyId) (statement : Nat)
  /-- A task takes the inputs of a dependency that is not registered. -/
  | unknownInput (task : TaskId) (dependency : DependencyId)
  /-- A task takes inputs that have not all arrived. -/
  | incompleteInput (dependency : DependencyId) (statement : Nat)
  /-- The dependency of an output is not registered. -/
  | missingOutput (dependency : DependencyId) (statement : Nat)
  /-- A statement has no result. -/
  | missingResult (statement : Nat) (dependency : DependencyId)
  deriving DecidableEq

/-- The wording of a fault in the rounds of a transaction. -/
def RoundFault.message (txn : TxnId) : RoundFault → String
  | .nothingPredicted => s!"txn {txn.text} predicted to touch no partitions"
  | .foreignBase base => s!"txn {txn.text} base partition {partitionText base} is not local"
  | .notHosted partition => s!"txn {txn.text}: partition {partitionText partition} is not hosted here"
  | .resultsBeforeInit count =>
    s!"txn {txn.text}: initializing a round with {count} queued results"
  | .cannotInit partition phase =>
    s!"txn {txn.text}: cannot init round at partition {partitionText partition} from {phase}"
  | .startOutOfTurn partition =>
    s!"txn {txn.text}: starting round at partition {partitionText partition}"
  | .orderAlreadySet => s!"txn {txn.text}: output order already set"
  | .emptyBatch => s!"txn {txn.text}: starting round with an empty batch"
  | .outputMismatch => s!"txn {txn.text}: expected one output dependency per statement"
  | .surplusResults received registered =>
    s!"txn {txn.text}: received {received} results for {registered} dependencies"
  | .latchAlreadyArmed => s!"txn {txn.text}: dependency latch already armed"
  | .outstandingDependencies => s!"txn {txn.text}: finishing round with outstanding dependencies"
  | .resultsBeforeFinish => s!"txn {txn.text}: finishing round with queued results"
  | .finishOutOfTurn partition =>
    s!"txn {txn.text}: finishing round at partition {partitionText partition}"
  | .latchNotDrained => s!"txn {txn.text}: latch not drained"
  | .workOutOfTurn => s!"txn {txn.text}: adding work outside an initialized round"
  | .duplicateTask task => s!"txn {txn.text}: duplicate task {task}"
  | .duplicateResult partition dependency =>
    s!"txn {txn.text}: duplicate result for partition {partitionText partition}, " ++
      s!"dependency {dependency.text}"
  | .resultOutOfTurn dependency phase =>
    s!"txn {txn.text}: result for dependency {dependency.text} in round state {phase}"
  | .unexpectedResult partition dependency =>
    s!"txn {txn.text}: unexpected result for partition {partitionText partition}, " ++
      s!"dependency {dependency.text}"
  | .unregisteredDependency dependency statement =>
    s!"txn {txn.text}: no dependency {dependency.text} registered for statement #{statement}"
  | .unknownInput task dependency =>
    s!"txn {txn.text}: task {task} consumes unknown dependency {dependency.text}"
  | .incompleteInput dependency statement =>
    s!"txn {txn.text}: dependency {dependency.text} of statement #{statement} is incomplete"
  | .missingOutput dependency statement =>
    s!"txn {txn.text}: missing dependency {dependency.text} for statement #{statement}"
  | .missingResult statement dependency =>
    s!"txn {txn.text}: no result for statement #{statement} (dependency {dependency.text})"

/-- A broken promise. -/
inductive Fault where
  /-- A counter leaves its range. -/
  | overflow
  /-- A position lies outside its table. -/
  | outOfBounds
  /-- Values are to be spread over no partitions. -/
  | nowhereToHash
  /-- A digest is to be sorted into no buckets. -/
  | noBuckets
  /-- A pool handed out an object that was in use before and not finished. -/
  | unfinishedObject (pool : String)
  /-- An object does not let itself be finished. -/
  | unfinishable (pool : String)
  /-- A graph's sentinels are inserted twice. -/
  | graphTwice (procedure : ProcedureId) (base : Nat)
  /-- A graph without sentinels is used. -/
  | graphBare (procedure : ProcedureId) (base : Nat)
  /-- The probabilities of a vertex are wanted before those of a successor are known. -/
  | premature (vertex : Nat) (label : String) (successor : Nat) (successorLabel : String)
  /-- A successor has no value for a probability. -/
  | missingProbability (successor : Nat) (field : String)
  /-- Two edges lead from one vertex to another. -/
  | duplicateEdge (procedure : ProcedureId) (base source target : Nat)
  /-- The outgoing probabilities of a vertex do not sum to one. -/
  | unbalanced (procedure : ProcedureId) (base vertex : Nat) (total : String)
  /-- A walker is sent out again before it was finished. -/
  | walkerReused
  /-- A partition plan does not fit into a partition's memory. -/
  | planTooLarge (percent : String)
  /-- A dependency record is taken again before it was finished. -/
  | dependencyReused
  /-- A dependency gets a result from a partition that owes none. -/
  | foreignResult (partition : Nat) (dependency : Option DependencyId)
  /-- A prepare callback is taken again before it was finished. -/
  | prepareReused
  /-- A prepare response acknowledges no partition. -/
  | emptyPrepare (txn : Option TxnId)
  /-- A wait without a bound has nobody left who could end it. -/
  | endlessWait
  /-- A step of a transaction's rounds is out of turn. -/
  | round (txn : TxnId) (cause : RoundFault)
  deriving DecidableEq

/-- The wording of a fault. -/
def Fault.message : Fault → String
  | .overflow => "arithmetic overflow"
  | .outOfBounds => "index out of bounds"
  | .nowhereToHash => "hasher needs at least one partition"
  | .noBuckets => "cannot bucket into zero partitions"
  | .unfinishedObject pool => s!"pool '{pool}' handed out an object that was never finished"
  | .unfinishable pool => s!"pool '{pool}' object still initialized after finish()"
  | .graphTwice procedure base =>
    s!"graph for {procedure.text} at partition {partitionText base} initialized twice"
  | .graphBare procedure base =>
    s!"graph for {procedure.text} at partition {partitionText base} used before initialize()"
  | .premature vertex label successor successorLabel =>
    s!"vertex {vertexText vertex} ({label}) finalized before its successor " ++
      s!"{vertexText successor} ({successorLabel})"
  | .missingProbability successor field =>
    s!"successor {vertexText successor} has no {field} probability"
  | .duplicateEdge procedure base source target =>
    s!"graph for {procedure.text} at partition {partitionText base} is not sane: " ++
      s!"DuplicateEdge \x7b src: VertexId({source}), dst: VertexId({target}) \x7d"
  | .unbalanced procedure base vertex total =>
    s!"graph for {procedure.text} at partition {partitionText base} is not sane: " ++
      s!"ProbabilityMass \x7b vertex: VertexId({vertex}), total: {total} \x7d"
  | .walkerReused => "path estimator reused without finish()"
  | .planTooLarge percent => s!"partition plan needs {percent}% of a partition's memory"
  | .dependencyReused => "dependency info reused without finish()"
  | .foreignResult partition dependency =>
    s!"unexpected result from partition {partitionText partition} for dependency " ++
      optionalText (dependency.map DependencyId.text)
  | .prepareReused => "prepare callback reused without finish()"
  | .emptyPrepare txn => s!"empty PREPARE response for txn {optionalText (txn.map TxnId.text)}"
  | .endlessWait => "wait without end"
  | .round txn cause => cause.message txn

end TxnPath
