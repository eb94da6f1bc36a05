import Std.Data.ExtTreeMap
import TxnPath.Archive.Load
import TxnPath.Graph.Replay

/-!
# Indexed graphs

`Graph` holds the vertices and the edges and searches them. An `IndexedGraph` keeps four structures
beside them that have to say the same: the vertex of each call, the edge between each two vertices,
and for every vertex the numbers of the edges that leave it and of those that enter it. Look-ups read
these and never search.

Vertices are created for sentinels, calls and records, edges for steps and records. Each creation
enters what it creates into the four (`addVertex`, `addEdge`); whatever only counts, measures or derives
leaves them alone (`onArenas`). `TxnPath.Proofs.Graph.Indexed` shows that an operation on an indexed
graph does what the same operation on its graph does.
-/

set_option autoImplicit false

namespace TxnPath

open Std (ExtTreeMap TransCmp LawfulEqCmp)

/-- What the vertex of a call is looked up by. -/
structure CallKey where
  statement : StatementId
  occurrence : Nat
  partitions : PartitionSet
  deriving DecidableEq

/-- Keys are ordered by statement, then by occurrence, then by partitions. -/
def CallKey.order : CallKey → CallKey → Ordering :=
  compareLex (compareOn CallKey.statement)
    (compareLex (compareOn CallKey.occurrence) (compareOn fun k => k.partitions.toList))

instance : TransCmp CallKey.order := inferInstanceAs (TransCmp (compareLex _ _))

instance : LawfulEqCmp CallKey.order where
  compare_self {a} := by simp [CallKey.order, compareLex, compareOn]
  eq_of_compare {a b} h := by
    obtain ⟨_, _, p, _⟩ := a
    obtain ⟨_, _, q, _⟩ := b
    simp only [CallKey.order, compareLex, compareOn, Ordering.then_eq_eq,
      LawfulEqCmp.compare_eq_iff_eq] at h
    obtain ⟨rfl, rfl, rfl⟩ := h
    rfl

/-- What a call is told apart by. -/
def Call.key (c : Call) : CallKey := ⟨c.statement, c.occurrence, c.partitions⟩

/-- The order of pairs of vertices: by the first, then by the second. -/
def endsOrder : Nat × Nat → Nat × Nat → Ordering := compareLex (compareOn Prod.fst) (compareOn Prod.snd)

instance : TransCmp endsOrder := inferInstanceAs (TransCmp (compareLex _ _))

instance : LawfulEqCmp endsOrder where
  compare_self {a} := by simp [endsOrder, compareLex, compareOn]
  eq_of_compare {a b} h := by
    simp only [endsOrder, compareLex, compareOn, Ordering.then_eq_eq, Nat.compare_eq_eq] at h
    exact Prod.ext h.1 h.2

/-- A graph with what is looked up in it. -/
structure IndexedGraph (R : Type) extends Graph R where
  /-- The vertex of every call. -/
  calls : ExtTreeMap CallKey Nat CallKey.order
  /-- The edge between every two vertices that have one. -/
  steps : ExtTreeMap (Nat × Nat) Nat endsOrder
  /-- The edges that leave every vertex. -/
  outEdges : Array (List Nat)
  /-- The edges that enter every vertex. -/
  inEdges : Array (List Nat)

namespace IndexedGraph

variable {R : Type}

/-! ### Look-ups -/

/-- The vertex of a call. -/
def findCall? (x : IndexedGraph R) (c : Call) : Option Nat := x.calls[c.key]?

/-- The edge between two vertices. -/
def findEdge? (x : IndexedGraph R) (source target : Nat) : Option Nat := x.steps[(source, target)]?

/-- The numbers of the edges that leave a vertex. -/
def outgoingAt (x : IndexedGraph R) (v : Nat) : List Nat := x.outEdges[v]?.getD []

/-- The numbers of the edges that enter a vertex. -/
def incomingAt (x : IndexedGraph R) (v : Nat) : List Nat := x.inEdges[v]?.getD []

/-- Edges that are given by their numbers, each with its number. -/
def edgesOf (x : IndexedGraph R) (numbers : List Nat) : List (Edge R × Nat) :=
  numbers.filterMap fun i => x.edges[i]?.map fun e => (e, i)

/-- The edges that leave a vertex. -/
def outgoing (x : IndexedGraph R) (v : Nat) : List (Edge R × Nat) := x.edgesOf (x.outgoingAt v)

/-- The edges that enter a vertex. -/
def incoming (x : IndexedGraph R) (v : Nat) : List (Edge R × Nat) := x.edgesOf (x.incomingAt v)

/-! ### Creation -/

/-- Changes nothing that is looked up. -/
def onArenas (f : Graph R → Graph R) (x : IndexedGraph R) : IndexedGraph R :=
  { x with toGraph := f x.toGraph }

/-- Appends a vertex: its call is found from now on, and no edge is at it yet. -/
def addVertex (x : IndexedGraph R) (y : Vertex R) : IndexedGraph R where
  toGraph := { x.toGraph with vertices := x.vertices.push y }
  calls := match y.kind with
    | .query c => x.calls.insert c.key x.vertices.size
    | _ => x.calls
  steps := x.steps
  outEdges := x.outEdges.push []
  inEdges := x.inEdges.push []

/-- Appends an edge: it is found between its ends from now on, and comes last at both. -/
def addEdge (x : IndexedGraph R) (e : Edge R) : IndexedGraph R where
  toGraph := { x.toGraph with edges := x.edges.push e }
  calls := x.calls
  steps := x.steps.insert (e.source, e.target) x.edges.size
  outEdges := x.outEdges.modify e.source fun es => es ++ [x.edges.size]
  inEdges := x.inEdges.modify e.target fun es => es ++ [x.edges.size]

/-- An indexed graph without vertices. -/
def bare (procedure : ProcedureId) (base partitions : Nat) : IndexedGraph R :=
  ⟨.bare procedure base partitions, ∅, ∅, #[], #[]⟩

/-- Appends a vertex that was never hit. -/
def pushVertex (x : IndexedGraph R) (kind : VertexKind) : IndexedGraph R :=
  x.addVertex (.new kind x.partitions)

/-- Appends the three sentinels. -/
def pushSentinels (x : IndexedGraph R) : IndexedGraph R :=
  let n := x.vertices.size
  (((x.pushVertex .start).pushVertex .commit).pushVertex .abort).onArenas fun g =>
    { g with sentinels := some ⟨n, n + 1, n + 2⟩ }

/-- Appends the sentinels of a graph that has none. -/
def insertSentinels (x : IndexedGraph R) : Except Fault (IndexedGraph R) :=
  if x.sentinels.isSome then .error (.graphTwice x.procedure x.base) else .ok x.pushSentinels

/-- An indexed graph that has the sentinels only. -/
def fresh (procedure : ProcedureId) (base partitions : Nat) : IndexedGraph R :=
  (bare procedure base partitions).pushSentinels

/-- The vertex of a call, appended if it is new. -/
def ensureCall (x : IndexedGraph R) (c : Call) : IndexedGraph R × Nat :=
  match x.findCall? c with
  | some v => (x, v)
  | none => (x.pushVertex (.query c), x.vertices.size)

/-- The edge between two vertices, appended if it is new. Both vertices must have their lists. -/
def ensureEdge? [Zero R] (x : IndexedGraph R) (source target : Nat) :
    Except Fault (IndexedGraph R × Nat) :=
  match x.findEdge? source target with
  | some e => .ok (x, e)
  | none =>
    if source < x.outEdges.size ∧ target < x.inEdges.size then
      .ok (x.addEdge ⟨source, target, 0, 0, 0⟩, x.edges.size)
    else .error .outOfBounds

/-! ### Recording -/

section Recording

variable [Zero R]

/-- Counts one step from a vertex to another in the window: a hit of the edge, of its source, and of
a terminal target. -/
def link? (x : IndexedGraph R) (source target : Nat) : Except Fault (IndexedGraph R × Nat) := do
  let (x, e) ← x.ensureEdge? source target
  let x := x.onArenas fun g => (g.hitEdge e).hitVertex source
  pure (if x.isTerminal target then x.onArenas fun g => g.hitVertex target else x, e)

/-- Records a call behind a vertex. -/
def advance (x : IndexedGraph R) (before : Nat) (c : Call) (q : Query) :
    Except Fault (IndexedGraph R × Step) := do
  let (x, v) := x.ensureCall c
  let x := match q.elapsed with
    | some nanos => x.onArenas fun g => g.addTime v nanos
    | none => x
  let (x, _) ← x.link? before v
  if q.aborted then
    let s ← x.requireSentinels
    let (x, _) ← x.link? v s.abort
    pure (x, ⟨v, some s.abort⟩)
  else
    pure (x, ⟨v, none⟩)

/-- Records a query behind a vertex, given the statements called before. -/
def observe (x : IndexedGraph R) (before : Nat) (q : Query) (p : Procedure) (r : Router)
    (called : List StatementId) :
    Except Fault (Except Error (IndexedGraph R × Step × List StatementId)) :=
  match q.resolve p r x.base called with
  | .error e => .ok (.error e)
  | .ok c =>
    match x.advance before c q with
    | .error f => .error f
    | .ok (x, step) => .ok (.ok (x, step, called ++ [c.statement]))

/-- Records queries behind a vertex up to the first that aborts or cannot be resolved. -/
def replayQueries (p : Procedure) (r : Router) (x : IndexedGraph R) (before : Nat)
    (called : List StatementId) :
    List Query → Except Fault (IndexedGraph R × List Nat × Except Error Bool)
  | [] => .ok (x, [], .ok false)
  | q :: rest =>
    match x.observe before q p r called with
    | .error f => .error f
    | .ok (.error e) => .ok (x, [], .error e)
    | .ok (.ok (x, step, called)) =>
      if step.abort.isSome then .ok (x, step.path, .ok true)
      else
        match replayQueries p r x step.vertex called rest with
        | .error f => .error f
        | .ok (x, visited, result) => .ok (x, step.vertex :: visited, result)

/-- Records a trace. Gives the path, from START to COMMIT or ABORT. -/
def replay (x : IndexedGraph R) (t : Trace) (p : Procedure) (r : Router) :
    Except Fault (IndexedGraph R × Except Error (List Nat)) := do
  let s ← x.requireSentinels
  let (x, visited, result) ← replayQueries p r x s.start [] t.queries
  match result with
  | .error e => pure (x, .error e)
  | .ok true => pure (x.onArenas fun g => g.recordTxn, .ok (s.start :: visited))
  | .ok false =>
    let terminal := if t.aborted then s.abort else s.commit
    let (x, _) ← x.link? (visited.getLastD s.start) terminal
    pure (x.onArenas fun g => g.recordTxn, .ok (s.start :: visited ++ [terminal]))

end Recording

/-! ### Deriving and loading -/

/-- Derives all probabilities from the totals. -/
def derive [Scalar R] (x : IndexedGraph R) : Except Fault (IndexedGraph R) :=
  x.toGraph.derive.map fun g => x.onArenas fun _ => g

/-- Folds the window and derives all probabilities. -/
def recompute [Scalar R] (x : IndexedGraph R) : Except Fault (IndexedGraph R) :=
  (x.onArenas fun g => g.foldWindow).derive

/-- Appends a stored vertex. -/
def pushRecord (x : IndexedGraph R) (v : VertexRecord) : IndexedGraph R :=
  x.addVertex
    { Vertex.new v.kind x.partitions with
      totalHits := v.totalHits, execNanos := v.execNanos, execSamples := v.execSamples }

/-- Appends a stored vertex, given with its position, unless the procedure lacks its statement or the
graph has its like already. -/
def loadVertex (p : Procedure) (x : IndexedGraph R) (entry : VertexRecord × Nat) :
    Except DocumentError (IndexedGraph R) :=
  match entry.1.kind with
  | .query c =>
    if (p.statement? c.statement).isNone then .error (.unknownStatement entry.2 c.statement p.name)
    else if (x.findCall? c).isSome then .error (.duplicateVertex entry.2 entry.1.kind.label)
    else .ok (x.pushRecord entry.1)
  | kind =>
    if (x.findKind? kind).isSome then .error (.duplicateSentinel p.name kind.label)
    else .ok (x.pushRecord entry.1)

/-- Appends a stored edge, unless it ends nowhere or the graph has its like already. -/
def loadEdge [Zero R] (x : IndexedGraph R) (e : EdgeRecord) : Except DocumentError (IndexedGraph R) :=
  if x.vertices.size ≤ e.source ∨ x.vertices.size ≤ e.target then
    .error (.danglingEdge e.source e.target)
  else if (x.findEdge? e.source e.target).isSome then .error (.duplicateEdge e.source e.target)
  else .ok (x.addEdge ⟨e.source, e.target, e.totalHits, 0, 0⟩)

/-- Builds the graph of a record for a procedure, without probabilities. -/
def build [Zero R] (r : GraphRecord) (p : Procedure) : Except DocumentError (IndexedGraph R) :=
  match r.vertices.zipIdx.foldlM (loadVertex p) (bare p.id r.base r.partitions) with
  | .error e => .error e
  | .ok x =>
    match x.findSentinels? with
    | none => .error (.missingSentinel r.procedure r.base)
    | some s =>
      match r.edges.foldlM loadEdge (x.onArenas fun g => { g with sentinels := some s }) with
      | .error e => .error e
      | .ok x => .ok (x.onArenas fun g => { g with txns := r.txns, windowTxns := 0 })

/-- Loads a graph. -/
def load [Scalar R] (r : GraphRecord) (c : Catalog) : Except Fault (Except Error (IndexedGraph R)) :=
  match c.procedureNamed r.procedure with
  | .error e => .ok (.error e)
  | .ok p =>
    if r.partitions ≠ c.partitions then
      .ok (.error (.document (.partitionCount r.procedure r.partitions c.partitions)))
    else
      match build r p with
      | .error e => .ok (.error (.document e))
      | .ok x => x.derive.map .ok

end IndexedGraph

end TxnPath
