import TxnPath.Graph.ReverseOrder

/-!
# Recomputing probabilities

Folding a window adds its hits to the totals. The probability of an edge is then its share of its
source's hits, and the probabilities of a vertex are the sums of its successors', each weighted by
the edge that leads there:

* at COMMIT and ABORT the path has ended: it stays where it is, aborts or not, and is done
  everywhere;
* a transaction that stands at a call is not done at the partitions the call touches, and writes
  them for certain if the call does;
* it does not stay within one partition once a call touches another than the base.
-/

set_option autoImplicit false

namespace TxnPath

/-- What is known about one partition. -/
structure PartitionOutlook (R : Type) where
  done : R
  readOnly : R
  write : R
  deriving DecidableEq

/-- A successor of a vertex with all that is known about it. -/
structure Successor (R : Type) where
  /-- The probability of the edge that leads there. -/
  weight : R
  single : R
  abort : R
  /-- What is known about every partition. -/
  partitions : Array (PartitionOutlook R)
  deriving DecidableEq

namespace Successor

variable {R : Type} [Scalar R]

/-- What is known about a partition. -/
def outlook (s : Successor R) (p : Nat) : PartitionOutlook R := (s.partitions[p]?).getD ⟨0, 0, 0⟩

/-- The sum of a value over successors, each weighted by its edge, in order. -/
def weighted (succs : List (Successor R)) (value : Successor R → R) : R :=
  succs.foldl (fun acc s => acc + s.weight * value s) 0

end Successor

/-- A value that must be set at a successor. -/
def requireProbability {R : Type} (x : Option R) (field : String) (successor : Nat) : Except Fault R :=
  match x with
  | some x => .ok x
  | none => .error (.missingProbability successor field)

namespace ProbabilityTable

variable {R : Type} [Scalar R]

/-- A table with every entry set. -/
def complete (single abort : R) (n : Nat) (outlook : Nat → PartitionOutlook R) : ProbabilityTable R :=
  { single := some single
    abort := some abort
    done := Array.ofFn fun p : Fin n => some (outlook p).done
    readOnly := Array.ofFn fun p : Fin n => some (outlook p).readOnly
    write := Array.ofFn fun p : Fin n => some (outlook p).write }

/-- What a table says about the first `n` partitions. -/
def outlooks (t : ProbabilityTable R) (n successor : Nat) : Except Fault (List (PartitionOutlook R)) :=
  (List.range n).mapM fun p => do
    let readOnly ← requireProbability (t.get? .readOnly p) "read-only" successor
    let write ← requireProbability (t.get? .write p) "write" successor
    let done ← requireProbability (t.get? .done p) "done" successor
    pure ⟨done, readOnly, write⟩

end ProbabilityTable

namespace Vertex

variable {R : Type} [Scalar R]

/-- Whether a call touches another partition than the base. -/
def isRemote (v : Vertex R) (base : Nat) : Bool :=
  match v.kind with
  | .query c => c.partitions.toList.any fun p => p != base
  | _ => false

/-- Whether nothing is written here. -/
def isReadOnly (v : Vertex R) : Bool :=
  match v.kind with
  | .query c => c.queryType.isReadOnly
  | _ => true

/-- What is known about a partition at a vertex with given successors. -/
def outlookFrom (v : Vertex R) (succs : List (Successor R)) (p : Nat) : PartitionOutlook R :=
  let sum := fun (field : PartitionOutlook R → R) => Successor.weighted succs fun s => field (s.outlook p)
  if v.touches p then
    -- The call itself needs the partition, so the transaction is not done there whatever follows.
    if v.isReadOnly then ⟨0, sum PartitionOutlook.readOnly, sum PartitionOutlook.write⟩
    else ⟨0, 0, 1⟩
  else ⟨sum PartitionOutlook.done, sum PartitionOutlook.readOnly, sum PartitionOutlook.write⟩

/-- The probabilities at a vertex with given successors, in a graph for `n` partitions. -/
def tableFrom (v : Vertex R) (base n : Nat) (succs : List (Successor R)) : ProbabilityTable R :=
  match v.kind with
  | .commit => .complete 1 0 n fun _ => ⟨1, 0, 0⟩
  | .abort => .complete 1 1 n fun _ => ⟨1, 0, 0⟩
  | _ =>
    .complete (if v.isRemote base then 0 else Successor.weighted succs Successor.single)
      (Successor.weighted succs Successor.abort) n (v.outlookFrom succs)

end Vertex

namespace Graph

variable {R : Type} [Scalar R]

/-- The hits that a vertex had before the window. -/
def totalHits (g : Graph R) (v : Nat) : Nat :=
  match g.vertices[v]? with
  | some x => x.totalHits
  | none => 0

/-- How messages show a vertex. -/
def label (g : Graph R) (v : Nat) : String :=
  match g.vertices[v]? with
  | some x => x.kind.label
  | none => ""

/-- The table of a vertex. -/
def table (g : Graph R) (v : Nat) : ProbabilityTable R :=
  match g.vertices[v]? with
  | some x => x.probs
  | none => .unset 0

/-- Adds the window's hits to the totals. -/
def foldWindow (g : Graph R) : Graph R :=
  { g with
    vertices := g.vertices.map fun v => { v with totalHits := v.totalHits + v.windowHits, windowHits := 0 }
    edges := g.edges.map fun e => { e with totalHits := e.totalHits + e.windowHits, windowHits := 0 }
    windowTxns := 0 }

/-- Sets every edge's probability to its share of its source's hits. -/
def weighEdges (g : Graph R) : Graph R :=
  { g with
    edges := g.edges.map fun e =>
      let hits := g.totalHits e.source
      { e with probability := if 0 < hits then Scalar.ratio e.totalHits hits else 0 } }

/-- Unsets the probabilities of every vertex. -/
def unsetTables (g : Graph R) : Graph R :=
  { g with vertices := g.vertices.map fun v => { v with probs := .unset g.partitions } }

/-- The successors of a vertex along the edges that are not skipped. Each must have been settled. -/
def successors (g : Graph R) (skipped settled : List Nat) (v : Nat) : Except Fault (List (Successor R)) :=
  ((g.outgoing v).filter fun e => !skipped.contains e.2).mapM fun (e, _) => do
    if e.target ∉ settled then
      throw (.premature v (g.label v) e.target (g.label e.target))
    let t := g.table e.target
    let single ← requireProbability t.single "single-partition" e.target
    let abort ← requireProbability t.abort "abort" e.target
    let outlooks ← t.outlooks g.partitions e.target
    pure ⟨e.probability, single, abort, outlooks.toArray⟩

/-- Computes the probabilities of one vertex. -/
def settle (g : Graph R) (skipped settled : List Nat) (v : Nat) : Except Fault (Graph R) :=
  match g.vertices[v]? with
  | none => .error .outOfBounds
  | some x =>
    if x.kind.isTerminal then
      .ok { g with
        vertices := g.vertices.setIfInBounds v { x with probs := x.tableFrom g.base g.partitions [] } }
    else
      match g.successors skipped settled v with
      | .error e => .error e
      | .ok succs =>
        .ok { g with
          vertices := g.vertices.setIfInBounds v { x with probs := x.tableFrom g.base g.partitions succs } }

/-- Computes the probabilities of vertices, one after the other. -/
def settleAll (skipped : List Nat) : Graph R → List Nat → List Nat → Except Fault (Graph R)
  | g, _, [] => .ok g
  | g, settled, v :: rest =>
    match g.settle skipped settled v with
    | .error e => .error e
    | .ok g => settleAll skipped g (v :: settled) rest

/-- Derives all probabilities from the totals. -/
def derive (g : Graph R) : Except Fault (Graph R) :=
  match g.reverseOrder with
  | .error e => .error e
  | .ok r => settleAll r.skipped g.unsetTables.weighEdges [] r.order

/-- Folds the window and derives all probabilities. -/
def recompute (g : Graph R) : Except Fault (Graph R) := g.foldWindow.derive

end Graph

end TxnPath
