import TxnPath.Graph.Basic

/-!
# Reverse order

The probabilities of a vertex are computed from those of its successors. On a graph with cycles that
needs a cut: a depth-first search from START, and then from every vertex not reached, skips the edges
that lead back to a vertex whose own search is still open. The other edges form an acyclic graph, and
peeling it from the sinks backwards puts every vertex behind its successors.

Both parts work on the bare shape of a graph, a `Digraph`, and are runs of small steps on a visible
state (`Search.step`, `Frontier.step`).
-/

set_option autoImplicit false

namespace TxnPath

/-- An edge without its counters. -/
structure Arc where
  /-- The number of the edge. -/
  id : Nat
  /-- The vertex it leaves. -/
  source : Nat
  /-- The vertex it enters. -/
  target : Nat
  deriving DecidableEq

/-- The shape of a graph. -/
structure Digraph where
  /-- The number of vertices. -/
  size : Nat
  /-- The edges, in order of creation. -/
  arcs : List Arc
  deriving DecidableEq

namespace Digraph

/-- The edges that leave a vertex. -/
def outgoing (d : Digraph) (v : Nat) : List Arc := d.arcs.filter fun a => a.source == v

/-- The edges that enter a vertex. -/
def incoming (d : Digraph) (v : Nat) : List Arc := d.arcs.filter fun a => a.target == v

/-- The shape without some of its edges. -/
def without (d : Digraph) (skipped : List Nat) : Digraph :=
  { d with arcs := d.arcs.filter fun a => !skipped.contains a.id }

end Digraph

/-- The state of a depth-first search. A vertex is open while it is on the stack and finished
afterwards. -/
structure Search where
  /-- The vertices that searches are still to start from. -/
  roots : List Nat
  /-- The open vertices, innermost first, each with the edges it has not followed yet. -/
  stack : List (Nat × List Arc)
  /-- The finished vertices, the latest first. -/
  finished : List Nat
  /-- The edges that led to an open vertex. -/
  skipped : List Nat
  deriving DecidableEq

namespace Search

/-- Whether a vertex is on the stack. -/
def isOpen (s : Search) (v : Nat) : Bool := s.stack.any fun e => e.1 == v

/-- Follows one edge, finishes one vertex, or takes up one root. -/
def step (d : Digraph) (s : Search) : Search :=
  match s.stack with
  | (v, a :: more) :: below =>
    let s' := { s with stack := (v, more) :: below }
    -- An edge to an open vertex closes a cycle with the stack between its two ends.
    if s.isOpen a.target then { s' with skipped := a.id :: s.skipped }
    else if a.target ∈ s.finished then s'
    else { s' with stack := (a.target, d.outgoing a.target) :: (v, more) :: below }
  | (v, []) :: below => { s with stack := below, finished := v :: s.finished }
  | [] =>
    match s.roots with
    | [] => s
    | root :: roots =>
      if root ∈ s.finished then { s with roots := roots }
      else { s with roots := roots, stack := [(root, d.outgoing root)] }

/-- Several steps. -/
def run (d : Digraph) : Nat → Search → Search
  | 0, s => s
  | n + 1, s => run d n (s.step d)

/-- The search over a whole graph: every vertex is opened and finished once, every edge followed
once, and every root taken up once. -/
def complete (d : Digraph) (roots : List Nat) : Search :=
  run d (2 * d.size + d.arcs.length + roots.length) ⟨roots, [], [], []⟩

end Search

/-- The state of peeling an acyclic graph from its sinks. -/
structure Frontier where
  /-- Per vertex, how many of its outgoing edges lead to vertices not yet listed. -/
  pending : Array Nat
  /-- The vertices that can be listed, next first. -/
  ready : List Nat
  /-- The vertices listed so far. -/
  order : List Nat
  deriving DecidableEq

namespace Frontier

/-- The sinks given come first, then every other vertex without outgoing edges, ascending. -/
def start (d : Digraph) (sinks : List Nat) : Frontier :=
  let pending := ((List.range d.size).map fun v => (d.outgoing v).length).toArray
  let leaves := (List.range d.size).filter fun v => pending[v]? == some 0 && !sinks.contains v
  ⟨pending, sinks ++ leaves, []⟩

/-- Takes an edge off its source, which is ready with its last one. -/
def relax (f : Frontier) (a : Arc) : Except Fault Frontier :=
  match f.pending[a.source]? with
  | none => .error .outOfBounds
  | some 0 => .error .overflow
  | some (left + 1) =>
    .ok { f with
      pending := f.pending.setIfInBounds a.source left
      ready := if left = 0 then f.ready ++ [a.source] else f.ready }

/-- Lists the next ready vertex. -/
def step (d : Digraph) (f : Frontier) : Except Fault Frontier :=
  match f.ready with
  | [] => .ok f
  | v :: ready => (d.incoming v).foldlM relax { f with ready := ready, order := f.order ++ [v] }

/-- Several steps. -/
def run (d : Digraph) : Nat → Frontier → Except Fault Frontier
  | 0, f => .ok f
  | n + 1, f =>
    match f.step d with
    | .error e => .error e
    | .ok f => run d n f

/-- The whole peeling: every vertex is ready at most once for lacking edges or as a given sink, and
at most once more per edge. -/
def complete (d : Digraph) (sinks : List Nat) : Except Fault Frontier :=
  run d (d.size + sinks.length + d.arcs.length) (start d sinks)

end Frontier

/-- An order in which vertices come after their successors. -/
structure ReverseOrder where
  /-- The vertices. -/
  order : List Nat
  /-- The edges left out to break cycles, ascending. -/
  skipped : List Nat
  deriving DecidableEq

namespace Graph

variable {R : Type}

/-- The shape of a graph. -/
def shape (g : Graph R) : Digraph :=
  ⟨g.vertices.size, g.edges.toList.zipIdx.map fun (e, i) => ⟨i, e.source, e.target⟩⟩

/-- Where searches start: at START, then at every vertex. -/
def searchRoots (g : Graph R) : List Nat :=
  (g.sentinels.map Sentinels.start).toList ++ List.range g.vertices.size

/-- The sentinels that paths end at. -/
def sinks (g : Graph R) : List Nat :=
  match g.sentinels with
  | some s => [s.commit, s.abort]
  | none => []

/-- The edges that close cycles, ascending. -/
def backEdges (g : Graph R) : List Nat :=
  let skipped := (Search.complete g.shape g.searchRoots).skipped
  (List.range g.edges.size).filter skipped.contains

/-- The order in which vertices are computed. -/
def reverseOrder (g : Graph R) : Except Fault ReverseOrder :=
  let skipped := g.backEdges
  match Frontier.complete (g.shape.without skipped) g.sinks with
  | .error e => .error e
  | .ok f => .ok ⟨f.order, skipped⟩

end Graph

end TxnPath
