import TxnPath.Archive.Record
import TxnPath.Graph.Recompute

/-!
# Storing and loading graphs

`Graph.toRecord` takes down what is stored of a graph. `GraphRecord.load` builds the graph again and
derives its probabilities. It refuses a record that does not fit the catalog, repeats a vertex or an
edge, lacks a sentinel, or has an edge that ends nowhere.
-/

set_option autoImplicit false

namespace TxnPath

namespace Graph

variable {R : Type}

/-- What is stored of a graph. -/
def toRecord (g : Graph R) (c : Catalog) : Except Error GraphRecord :=
  (c.procedure g.procedure).map fun p =>
    { procedure := p.name
      procedureId := p.id
      base := g.base
      partitions := g.partitions
      txns := g.txns - g.windowTxns
      vertices := g.vertices.toList.map fun v => ⟨v.kind, v.totalHits, v.execNanos, v.execSamples⟩
      edges := g.edges.toList.map fun e => ⟨e.source, e.target, e.totalHits⟩ }

/-- Appends a stored vertex. -/
def pushRecord (g : Graph R) (v : VertexRecord) : Graph R :=
  { g with
    vertices := g.vertices.push
      { Vertex.new v.kind g.partitions with
        totalHits := v.totalHits, execNanos := v.execNanos, execSamples := v.execSamples } }

/-- The position of the first vertex of a kind. -/
def findKind? (g : Graph R) (kind : VertexKind) : Option Nat :=
  g.vertices.findIdx? fun v => v.kind == kind

/-- Where the sentinels are, if there is one of each. -/
def findSentinels? (g : Graph R) : Option Sentinels := do
  pure ⟨← g.findKind? .start, ← g.findKind? .commit, ← g.findKind? .abort⟩

/-- Appends a stored vertex, given with its position, unless the procedure lacks its statement or the
graph has its like already. -/
def loadVertex (p : Procedure) (g : Graph R) (entry : VertexRecord × Nat) :
    Except DocumentError (Graph R) :=
  match entry.1.kind with
  | .query c =>
    if (p.statement? c.statement).isNone then .error (.unknownStatement entry.2 c.statement p.name)
    else if (g.findCall? c).isSome then .error (.duplicateVertex entry.2 entry.1.kind.label)
    else .ok (g.pushRecord entry.1)
  | kind =>
    if (g.findKind? kind).isSome then .error (.duplicateSentinel p.name kind.label)
    else .ok (g.pushRecord entry.1)

/-- Appends a stored edge, unless it ends nowhere or the graph has its like already. -/
def loadEdge [Zero R] (g : Graph R) (e : EdgeRecord) : Except DocumentError (Graph R) :=
  if g.vertices.size ≤ e.source ∨ g.vertices.size ≤ e.target then
    .error (.danglingEdge e.source e.target)
  else if (g.findEdge? e.source e.target).isSome then .error (.duplicateEdge e.source e.target)
  else .ok { g with edges := g.edges.push ⟨e.source, e.target, e.totalHits, 0, 0⟩ }

end Graph

namespace GraphRecord

variable {R : Type} [Scalar R]

/-- Builds the graph of a record for a procedure, without probabilities. -/
def build (r : GraphRecord) (p : Procedure) : Except DocumentError (Graph R) :=
  match r.vertices.zipIdx.foldlM (Graph.loadVertex p) (Graph.bare p.id r.base r.partitions) with
  | .error e => .error e
  | .ok g =>
    match g.findSentinels? with
    | none => .error (.missingSentinel r.procedure r.base)
    | some s =>
      match r.edges.foldlM Graph.loadEdge { g with sentinels := some s } with
      | .error e => .error e
      | .ok g => .ok { g with txns := r.txns, windowTxns := 0 }

/-- Loads a graph. -/
def load (r : GraphRecord) (c : Catalog) : Except Fault (Except Error (Graph R)) :=
  match c.procedureNamed r.procedure with
  | .error e => .ok (.error e)
  | .ok p =>
    if r.partitions ≠ c.partitions then
      .ok (.error (.document (.partitionCount r.procedure r.partitions c.partitions)))
    else
      match r.build p with
      | .error e => .ok (.error (.document e))
      | .ok g => g.derive.map .ok

end GraphRecord

end TxnPath
