import TxnPath.Catalog
import TxnPath.Fault
import TxnPath.Probability
import TxnPath.Trace

/-!
# Path graphs

The graph of one procedure at one base partition records which statement call followed which in past
transactions. Its vertices are the three sentinels START, COMMIT and ABORT and one vertex per
statement call, told apart by statement, occurrence within the transaction, and partitions touched.
Vertices and edges are numbered in order of creation and never removed.

Each counts its hits twice: in the window since the last recomputation, and in all before that. The
probabilities of edges and vertices are derived from the latter (`TxnPath.Graph.Recompute`).
-/

set_option autoImplicit false

namespace TxnPath

/-- A call of a statement within a transaction. -/
structure Call where
  /-- The statement. -/
  statement : StatementId
  /-- Which call of the statement it is within the transaction, from zero. -/
  occurrence : Nat
  /-- The partitions it touches. -/
  partitions : PartitionSet
  /-- What it does there. -/
  queryType : QueryType
  deriving DecidableEq

/-- Whether two calls are told apart: the type of the query is that of the statement. -/
def Call.sameAs (a b : Call) : Bool :=
  a.statement == b.statement && a.occurrence == b.occurrence && a.partitions == b.partitions

/-- What a vertex stands for. -/
inductive VertexKind where
  | start
  | commit
  | abort
  | query (call : Call)
  deriving DecidableEq

namespace VertexKind

/-- Whether a path ends here. -/
def isTerminal : VertexKind → Bool
  | .commit | .abort => true
  | _ => false

/-- The call, if the vertex stands for one. -/
def call? : VertexKind → Option Call
  | .query c => some c
  | _ => none

/-- How messages show a vertex: a sentinel's name, or statement, occurrence and partitions. -/
def label : VertexKind → String
  | .start => "START"
  | .commit => "COMMIT"
  | .abort => "ABORT"
  | .query c =>
    let touched := ", ".intercalate (c.partitions.toList.map toString)
    s!"{c.statement}#{c.occurrence}[{touched}]"

end VertexKind

/-- A vertex. -/
structure Vertex (R : Type) where
  /-- What it stands for. -/
  kind : VertexKind
  /-- Hits before the last recomputation. -/
  totalHits : Nat
  /-- Hits since. -/
  windowHits : Nat
  /-- The sum of measured execution times, in nanoseconds. -/
  execNanos : Nat
  /-- The number of measurements. -/
  execSamples : Nat
  /-- The derived probabilities. -/
  probs : ProbabilityTable R
  deriving DecidableEq

namespace Vertex

variable {R : Type}

/-- A vertex that was never hit, in a graph for `n` partitions. -/
def new (kind : VertexKind) (n : Nat) : Vertex R := ⟨kind, 0, 0, 0, 0, .unset n⟩

/-- Whether the vertex stands for a call that touches a partition. -/
def touches (v : Vertex R) (p : Nat) : Bool :=
  match v.kind with
  | .query c => p ∈ c.partitions
  | _ => false

/-- Adds a measurement; the sum stays at the largest word once it would exceed it. -/
def addTime (v : Vertex R) (nanos : Nat) : Vertex R :=
  { v with execNanos := min (v.execNanos + nanos) (wordLimit - 1), execSamples := v.execSamples + 1 }

/-- The mean of the measurements. -/
def averageNanos? (v : Vertex R) : Option Nat :=
  if 0 < v.execSamples then some (v.execNanos / v.execSamples) else none

/-- Whether the share of window transactions that hit the vertex is further from the share of earlier
ones than tolerated. A vertex without earlier hits has drifted as soon as it is hit. -/
def isStale [Scalar R] (v : Vertex R) (windowTxns : Nat) (tolerance : R) (foldedTxns : Nat) : Bool :=
  if windowTxns = 0 then false
  else if v.totalHits = 0 ∨ foldedTxns = 0 then decide (0 < v.windowHits)
  else
    decide (tolerance <
      Scalar.distance (Scalar.ratio v.windowHits windowTxns) (Scalar.ratio v.totalHits foldedTxns))

end Vertex

/-- An edge. -/
structure Edge (R : Type) where
  /-- The vertex it leaves. -/
  source : Nat
  /-- The vertex it enters. -/
  target : Nat
  /-- Hits before the last recomputation. -/
  totalHits : Nat
  /-- Hits since. -/
  windowHits : Nat
  /-- The share of its source's hits, derived. -/
  probability : R
  deriving DecidableEq

/-- The positions of the sentinels. -/
structure Sentinels where
  start : Nat
  commit : Nat
  abort : Nat
  deriving DecidableEq

/-- The paths of one procedure at one base partition. -/
structure Graph (R : Type) where
  /-- The procedure. -/
  procedure : ProcedureId
  /-- The base partition. -/
  base : Nat
  /-- The number of partitions. -/
  partitions : Nat
  /-- The vertices, in order of creation. -/
  vertices : Array (Vertex R)
  /-- The edges, in order of creation. -/
  edges : Array (Edge R)
  /-- Where the sentinels are, once they are inserted. -/
  sentinels : Option Sentinels
  /-- Transactions recorded in all. -/
  txns : Nat
  /-- Transactions recorded since the last recomputation. -/
  windowTxns : Nat
  deriving DecidableEq

namespace Graph

variable {R : Type}

/-- A graph without vertices. -/
def bare (procedure : ProcedureId) (base partitions : Nat) : Graph R :=
  ⟨procedure, base, partitions, #[], #[], none, 0, 0⟩

/-- Appends a vertex. -/
def pushVertex (g : Graph R) (kind : VertexKind) : Graph R :=
  { g with vertices := g.vertices.push (.new kind g.partitions) }

/-- Appends the three sentinels. -/
def pushSentinels (g : Graph R) : Graph R :=
  let n := g.vertices.size
  { ((g.pushVertex .start).pushVertex .commit).pushVertex .abort with
    sentinels := some ⟨n, n + 1, n + 2⟩ }

/-- Appends the sentinels of a graph that has none. -/
def insertSentinels (g : Graph R) : Except Fault (Graph R) :=
  if g.sentinels.isSome then .error (.graphTwice g.procedure g.base) else .ok g.pushSentinels

/-- A graph that has the sentinels only. -/
def fresh (procedure : ProcedureId) (base partitions : Nat) : Graph R :=
  (bare procedure base partitions).pushSentinels

/-- Where the sentinels are. -/
def requireSentinels (g : Graph R) : Except Fault Sentinels :=
  match g.sentinels with
  | some s => .ok s
  | none => .error (.graphBare g.procedure g.base)

/-- The edges that leave a vertex, each with its number, in order of creation. -/
def outgoing (g : Graph R) (v : Nat) : List (Edge R × Nat) :=
  g.edges.toList.zipIdx.filter fun e => e.1.source == v

/-- The edges that enter a vertex, each with its number, in order of creation. -/
def incoming (g : Graph R) (v : Nat) : List (Edge R × Nat) :=
  g.edges.toList.zipIdx.filter fun e => e.1.target == v

/-- The vertex of a call. -/
def findCall? (g : Graph R) (c : Call) : Option Nat :=
  g.vertices.findIdx? fun v => v.kind.call?.any c.sameAs

/-- The edge between two vertices. -/
def findEdge? (g : Graph R) (source target : Nat) : Option Nat :=
  g.edges.findIdx? fun e => e.source == source && e.target == target

/-- The vertex of a call, appended if it is new. -/
def ensureCall (g : Graph R) (c : Call) : Graph R × Nat :=
  match g.findCall? c with
  | some v => (g, v)
  | none => (g.pushVertex (.query c), g.vertices.size)

/-- The edge between two vertices, appended if it is new. -/
def ensureEdge [Zero R] (g : Graph R) (source target : Nat) : Graph R × Nat :=
  match g.findEdge? source target with
  | some e => (g, e)
  | none => ({ g with edges := g.edges.push ⟨source, target, 0, 0, 0⟩ }, g.edges.size)

/-- Counts a hit of a vertex in the window. -/
def hitVertex (g : Graph R) (v : Nat) : Graph R :=
  { g with vertices := g.vertices.modify v fun x => { x with windowHits := x.windowHits + 1 } }

/-- Counts a hit of an edge in the window. -/
def hitEdge (g : Graph R) (e : Nat) : Graph R :=
  { g with edges := g.edges.modify e fun x => { x with windowHits := x.windowHits + 1 } }

/-- Whether a path ends at a vertex. -/
def isTerminal (g : Graph R) (v : Nat) : Bool := g.vertices[v]?.any fun x => x.kind.isTerminal

/-- Counts one step from a vertex to another in the window: a hit of the edge and of its source. A
terminal target is hit as well, since no edge leaves it that could count it. -/
def link [Zero R] (g : Graph R) (source target : Nat) : Graph R × Nat :=
  let (g, e) := g.ensureEdge source target
  let g := (g.hitEdge e).hitVertex source
  (if g.isTerminal target then g.hitVertex target else g, e)

/-- Counts one step between two vertices that must exist. -/
def link? [Zero R] (g : Graph R) (source target : Nat) : Except Fault (Graph R × Nat) :=
  if source < g.vertices.size ∧ target < g.vertices.size then .ok (g.link source target)
  else .error .outOfBounds

/-- Adds a measured execution time to a vertex. -/
def addTime (g : Graph R) (v nanos : Nat) : Graph R :=
  { g with vertices := g.vertices.modify v fun x => x.addTime nanos }

/-- Counts a finished transaction in the window. -/
def recordTxn (g : Graph R) : Graph R := { g with txns := g.txns + 1, windowTxns := g.windowTxns + 1 }

/-- Forgets the window's hits. -/
def resetWindow (g : Graph R) : Graph R :=
  { g with
    vertices := g.vertices.map fun v => { v with windowHits := 0 }
    edges := g.edges.map fun e => { e with windowHits := 0 }
    windowTxns := 0 }

/-- Whether at least a share of the vertices has drifted. -/
def shouldRecompute [Scalar R] (g : Graph R) (tolerance proportion : R) : Bool :=
  if g.windowTxns = 0 ∨ g.vertices.isEmpty then false
  else
    let stale := g.vertices.toList.filter fun v => v.isStale g.windowTxns tolerance (g.txns - g.windowTxns)
    decide (proportion ≤ Scalar.ratio stale.length g.vertices.size)

end Graph

end TxnPath
