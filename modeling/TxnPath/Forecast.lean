import TxnPath.Catalog
import TxnPath.GraphStore
import TxnPath.Walk

/-!
# Forecasts

A `Forecast` follows one open transaction: the estimate made before its first query, one estimate per
batch that it ran since, the path that it really took, and what it touched on the way. A
`Forecaster` makes forecasts from the graphs of a site and records in these graphs what transactions
do. Walkers and estimates come from its pools.

A forecast names its graph by key; the graph itself stays in the forecaster's store, so that all open
transactions of a procedure and base partition walk and extend the same graph.
-/

set_option autoImplicit false

namespace TxnPath

/-- The estimation state of an open transaction. -/
structure Forecast (R : Type) where
  /-- The transaction. -/
  txn : TxnId
  /-- Its graph: base partition and procedure. -/
  key : GraphKey
  /-- The arguments of its procedure. -/
  args : List Value
  /-- The path predicted before its first query. -/
  initialPath : List Nat
  /-- The estimate made before its first query. -/
  initial : Estimate R
  /-- One estimate per batch that it ran, in order. -/
  estimates : List (Estimate R)
  /-- START. -/
  origin : Nat
  /-- The vertices that it came to since, in order. -/
  visited : List Nat
  /-- The statements that it called, in order. -/
  called : List StatementId
  /-- How often it touched each partition. -/
  touched : DenseHistogram
  deriving DecidableEq

namespace Forecast

variable {R : Type}

/-- The path that the transaction took so far. -/
def path (f : Forecast R) : List Nat := f.origin :: f.visited

/-- Where the path stands. -/
def current (f : Forecast R) : Nat := f.visited.getLast?.getD f.origin

/-- The latest estimate. -/
def latest (f : Forecast R) : Estimate R := f.estimates.getLast?.getD f.initial

end Forecast

/-- What makes forecasts. -/
structure Forecaster (R : Type) where
  catalog : Catalog
  router : Router
  mappings : MappingTable R
  config : Config R
  /-- The graphs. -/
  store : GraphStore R
  /-- The pool of walkers. -/
  walkers : Pool (Walker R)
  /-- The pool of estimates. -/
  estimates : Pool (Estimate R)

namespace Forecaster

variable {R : Type}

/-- A forecaster over given graphs. -/
def new (catalog : Catalog) (router : Router) (mappings : MappingTable R) (config : Config R)
    (store : GraphStore R) : Forecaster R :=
  { catalog := catalog
    router := router
    mappings := mappings
    config := config
    store := store
    walkers := .new "path-estimators" config.poolIdle none
    estimates := .new "estimates" config.poolIdle none }

/-- The graph of a key, a fresh one if there is none yet. -/
def graph (f : Forecaster R) (k : GraphKey) : Graph R := (f.store.getOrCreate k f.catalog.partitions).2

/-- Whether the path of a forecast has ended at ABORT. -/
def hasAborted (f : Forecaster R) (s : Forecast R) : Bool :=
  (f.graph s.key).vertices[s.current]?.any fun v => v.kind == .abort

variable [Scalar R]

/-- What a walk for a call of a procedure reads. -/
def journey (f : Forecaster R) (g : Graph R) (p : Procedure) (args : List Value) : Journey R :=
  { graph := g
    procedure := p
    mappings := f.mappings
    router := f.router
    args := args
    policy := f.config.policy
    force := f.config.forceTraversal
    minHitsForAbort := f.config.minHitsForAbort }

/-- Takes a walker and an estimate out of the pools. -/
def borrow (f : Forecaster R) : Except Fault (Forecaster R × Walker R × Estimate R) :=
  match f.walkers.borrow fun _ => .new with
  | .error e => .error e
  | .ok (walkers, w) =>
    match f.estimates.borrow fun _ => .new with
    | .error e => .error e
    | .ok (estimates, e) => .ok ({ f with walkers := walkers, estimates := estimates }, w, e)

/-- Puts a walker back. -/
def returnWalker (f : Forecaster R) (w : Walker R) : Except Fault (Forecaster R) :=
  (f.walkers.release w).map fun walkers => { f with walkers := walkers }

/-- Puts estimates back. -/
def returnEstimates (f : Forecaster R) (es : List (Estimate R)) : Except Fault (Forecaster R) :=
  (f.estimates.releaseAll es).map fun estimates => { f with estimates := estimates }

/-- Begins the forecast of a transaction with a walk from START. -/
def start (f : Forecaster R) (txn : TxnId) (procedure : ProcedureId) (args : List Value) :
    Except Fault (Forecaster R × Except Error (Forecast R)) :=
  match f.catalog.procedure procedure with
  | .error e => .ok (f, .error e)
  | .ok p =>
    match f.router.base p args with
    | .error e => .ok (f, .error e)
    | .ok base => do
      let k : GraphKey := ⟨base, procedure⟩
      let (store, g) := f.store.getOrCreate k f.catalog.partitions
      let (f, w, e) ← { f with store := store }.borrow
      let sentinels ← g.requireSentinels
      let w ← w.traverse (f.journey g p args) sentinels.start
      let f ← f.returnWalker w
      pure (f, .ok
        { txn := txn
          key := k
          args := args
          initialPath := w.visited
          initial := e.copyFrom w.estimate
          estimates := []
          origin := sentinels.start
          visited := []
          called := []
          touched := .empty f.catalog.partitions })

/-- Records queries in a graph and in the forecast, up to the first that aborts the transaction or
cannot be resolved. -/
def record (p : Procedure) (r : Router) :
    Graph R → Forecast R → List Query → Except Fault (Graph R × Forecast R × Except Error Unit)
  | g, s, [] => .ok (g, s, .ok ())
  | g, s, q :: rest =>
    match g.observe s.current q p r s.called with
    | .error e => .error e
    | .ok (.error e) => .ok (g, s, .error e)
    | .ok (.ok (g, step, called)) =>
      let partitions := match (g.vertices[step.vertex]?).bind fun v => v.kind.call? with
        | some c => c.partitions.toList
        | none => []
      match partitions.foldlM (fun h p => h.add? p 1) s.touched with
      | .error e => .error e
      | .ok touched =>
        let s := { s with visited := s.visited ++ step.path, called := called, touched := touched }
        if step.abort.isSome then .ok (g, s, .ok ()) else record p r g s rest

/-- Records a batch of queries and appends the estimate of a walk from where the batch ended. When a
query fails, what was recorded before it stays, and no estimate is made. -/
def advance (f : Forecaster R) (s : Forecast R) (queries : List Query) :
    Except Fault (Forecaster R × Forecast R × Except Error (Estimate R)) :=
  match f.catalog.procedure s.key.procedure with
  | .error e => .ok (f, s, .error e)
  | .ok p => do
    let (f, w, e) ← f.borrow
    let g := f.graph s.key
    -- A path that has ended takes no further query, but an empty batch still gets an estimate.
    let (g, s, result) ←
      if g.isTerminal s.current ∧ queries ≠ [] then pure (g, s, .error (.routing (.pathEnded s.txn)))
      else record p f.router g s queries
    let f := { f with store := f.store.set s.key g }
    match result with
    | .error failure =>
      let f ← f.returnEstimates [e]
      let f ← f.returnWalker w
      pure (f, s, .error failure)
    | .ok () =>
      let w ← w.traverse (f.journey g p s.args) s.current
      let f ← f.returnWalker w
      let e := { e.copyFrom w.estimate with
        point := some (.afterBatch s.estimates.length)
        touched := s.touched }
      pure (f, { s with estimates := s.estimates ++ [e] }, .ok e)

/-- Puts the estimates of a forecast back. -/
def discard (f : Forecaster R) (s : Forecast R) : Except Fault (Forecaster R) :=
  f.returnEstimates (s.initial :: s.estimates)

/-- Closes a forecast at COMMIT or ABORT and counts the transaction. Gives whether the graph had
drifted so far that it was recomputed. -/
def close (f : Forecaster R) (s : Forecast R) (committed : Bool) :
    Except Fault (Forecaster R × Bool) := do
  let g := f.graph s.key
  let sentinels ← g.requireSentinels
  let g ←
    -- A query that aborted has already led the path to ABORT.
    if g.isTerminal s.current then pure g
    else
      let (g, _) ← g.link? s.current (if committed then sentinels.commit else sentinels.abort)
      pure g
  let g := g.recordTxn
  let drifted := decide (f.config.recomputeMinTxns ≤ g.windowTxns) &&
    g.shouldRecompute f.config.recomputeTolerance f.config.recomputeProportion
  let g ← if drifted then g.recompute else pure g
  let f ← { f with store := f.store.set s.key g }.discard s
  pure (f, drifted)

/-- Advances a forecast batch by batch, up to the first batch that ends at ABORT or fails. -/
def advanceAll : Forecaster R → Forecast R → List (List Query) →
    Except Fault (Forecaster R × Forecast R × Except Error Unit)
  | f, s, [] => .ok (f, s, .ok ())
  | f, s, batch :: rest =>
    match f.advance s batch with
    | .error e => .error e
    | .ok (f, s, .error e) => .ok (f, s, .error e)
    | .ok (f, s, .ok _) => if f.hasAborted s then .ok (f, s, .ok ()) else advanceAll f s rest

/-- Begins a forecast for a recorded transaction and advances it through the transaction's batches.
The forecast is left open; when a batch fails it is given up. -/
def follow (f : Forecaster R) (t : Trace) : Except Fault (Forecaster R × Except Error (Forecast R)) :=
  match f.start t.txn t.procedure t.params with
  | .error e => .error e
  | .ok (f, .error e) => .ok (f, .error e)
  | .ok (f, .ok s) =>
    match f.advanceAll s t.batches with
    | .error e => .error e
    | .ok (f, s, .error e) => (f.discard s).map fun f => (f, .error e)
    | .ok (f, s, .ok ()) => .ok (f, .ok s)

/-- Trains the graphs with traces. -/
def train (f : Forecaster R) (traces : List Trace) : Except Fault (Forecaster R × Except Error Nat) :=
  (f.store.train f.catalog f.router traces).map fun (store, n) => ({ f with store := store }, n)

/-- Recomputes every graph. -/
def recomputeAll (f : Forecaster R) : Except Fault (Forecaster R) :=
  f.store.recomputeAll.map fun store => { f with store := store }

end Forecaster

end TxnPath
