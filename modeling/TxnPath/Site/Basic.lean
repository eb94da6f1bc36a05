import TxnPath.Archive.Basic
import TxnPath.Forecast
import TxnPath.Router.ByCatalog
import TxnPath.Txn.Steps

/-!
# Sites

A site hosts partitions, admits transactions at their base partitions, runs their batches through the
executors, prepares and finishes them. It predicts what a transaction touches from its forecaster, or
from the catalog's flags where predictions are off. It keeps the record of all executor calls.
-/

set_option autoImplicit false

namespace TxnPath

/-- The state of a site. -/
structure Site (R : Type) where
  config : Config R
  catalog : Catalog
  router : Router
  /-- The executors. -/
  engine : Engine
  /-- What predicts transactions, unless predictions are off. -/
  forecaster : Option (Forecaster R)
  /-- The partitions that the site hosts. -/
  hosted : List Nat
  /-- The number of the next transaction. -/
  nextTxn : Nat
  /-- The next undo token. -/
  nextToken : Nat
  /-- The last transaction that was committed; zero before the first. -/
  lastCommitted : Nat
  /-- All calls of executors, in order. -/
  journal : List EngineCall

/-- A transaction that a site has admitted, with its forecast. -/
structure Admitted (R : Type) where
  txn : Transaction
  forecast : Option (Forecast R)

/-- The final answer to a client. -/
inductive Response where
  /-- The transaction is committed, with the results of its last batch. -/
  | committed (txn : TxnId) (client : ClientHandle) (results : List ResultTable)
  /-- The transaction is rolled back. -/
  | aborted (txn : TxnId) (client : ClientHandle) (reason : String)
  deriving DecidableEq

namespace Site

variable {R : Type} [Scalar R]

/-- The graphs that a site starts with: those given, else those of the archive that the configuration
names, else none. -/
def initialGraphs (config : Config R) (catalog : Catalog) (graphs : Option (GraphStore R))
    (readFile : String → Except String String) : Except Fault (Except Error (GraphStore R)) :=
  match graphs, config.graphsPath with
  | some store, _ => .ok (.ok store)
  | none, none => .ok (.ok ∅)
  | none, some path =>
    match readFile path with
    | .error reason => .ok (.error (.file reason))
    | .ok text =>
      match Archive.ofText text with
      | .error e => .ok (.error e)
      | .ok archive => archive.toStore catalog

/-- The partitions that a site hosts: those that the configuration lists, or all. -/
def hostedPartitions (config : Config R) (catalog : Catalog) : List Nat :=
  if config.localPartitions.isEmpty then catalog.allPartitions.toList else config.localPartitions

/-- A new site. -/
def new (config : Config R) (catalog : Catalog) (router : Router) (engine : Engine)
    (mappings : MappingTable R) (graphs : Option (GraphStore R))
    (readFile : String → Except String String) : Except Fault (Except TxnError (Site R)) :=
  match config.validate with
  | .error e => .ok (.error (.core e))
  | .ok () =>
    match catalog.validate with
    | .error e => .ok (.error (.core e))
    | .ok () =>
      let hosted := hostedPartitions config catalog
      let site : Option (Forecaster R) → Site R := fun forecaster =>
        ⟨config, catalog, router, engine, forecaster, hosted, 1, 1, 0, []⟩
      match hosted.find? fun p => catalog.partitions ≤ p with
      | some p => .ok (.error (.notLocal p))
      | none =>
        if config.predict then
          match initialGraphs config catalog graphs readFile with
          | .error f => .error f
          | .ok (.error e) => .ok (.error (.core e))
          | .ok (.ok store) =>
            .ok (.ok (site (some (.new catalog router mappings config store))))
        else .ok (.ok (site none))

/-- The last transaction that was committed. -/
def lastCommitted? (s : Site R) : Option TxnId := if s.lastCommitted = 0 then none else some s.lastCommitted

/-- What the catalog's flags say about a procedure at a base partition. -/
def flagPrediction (s : Site R) (p : Procedure) (base : Nat) : Prediction where
  touched := if p.singlePartition then .singleton base else s.catalog.allPartitions
  readOnly := p.isReadOnly
  abortable := true

/-- What an estimate says about a transaction at a base partition, which it touches in any case. -/
def estimatePrediction (s : Site R) (e : Estimate R) (base : Nat) : Prediction where
  touched := (e.touchedPartitions s.config.thresholds).insert base
  readOnly := e.isReadOnly s.config.thresholds
  abortable := e.isAbortable s.config.thresholds

/-- Predicts a transaction. Procedures of the system are not forecast. -/
def predict (s : Site R) (txn : TxnId) (p : Procedure) (args : List Value) (base : Nat) :
    Except Fault (Site R × Except TxnError (Prediction × Option (Forecast R))) :=
  match s.forecaster.filter fun _ => !p.isSystem with
  | none => .ok (s, .ok (s.flagPrediction p base, none))
  | some f =>
    match f.start txn p.id args with
    | .error e => .error e
    | .ok (f, .error e) => .ok ({ s with forecaster := some f }, .error (.core e))
    | .ok (f, .ok forecast) =>
      .ok ({ s with forecaster := some f },
        .ok (s.estimatePrediction forecast.initial base, some forecast))

/-- Admits a call of a procedure. -/
def begin (s : Site R) (procedure : String) (args : List Value) (client : ClientHandle) :
    Except Fault (Site R × Except TxnError (Admitted R)) :=
  match s.catalog.procedureNamed procedure with
  | .error _ => .ok (s, .error (.unknownProcedure procedure))
  | .ok p =>
    match s.router.base p args with
    | .error e => .ok (s, .error (.core e))
    | .ok base =>
      if !s.hosted.contains base then .ok (s, .error (.notLocal base))
      else
        let txn := s.nextTxn
        match { s with nextTxn := txn + 1 }.predict txn p args base with
        | .error f => .error f
        | .ok (s, .error e) => .ok (s, .error e)
        | .ok (s, .ok (prediction, forecast)) =>
          let admission : Admission :=
            { txn := txn
              client := client
              procedure := p.id
              isSystem := p.isSystem
              base := base
              hosted := s.hosted
              partitions := s.catalog.partitions
              prediction := prediction }
          (Transaction.start admission s.config.poolIdle).map fun t => (s, .ok ⟨t, forecast⟩)

end Site

end TxnPath
