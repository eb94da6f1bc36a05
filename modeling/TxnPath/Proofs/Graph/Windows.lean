import TxnPath.Proofs.Graph.Calls
import TxnPath.Proofs.Graph.Rederive

/-!
# `TxnPath.Proofs.Graph.Windows`: when a graph is recomputed does not matter

Recomputing moves hits from the window to the totals and derives probabilities from these. What is
recorded in a graph stays as it is (`sameRecord_recompute`), and nothing that is recorded later asks
for more than that: two graphs in which the same is recorded take the same trace in the same way, with
the same result, and the same is recorded in them afterwards (`SameRecord.replay`). Recomputing two
such graphs gives one graph, with the very same probabilities, or the same fault
(`SameRecord.recompute_eq`). Nothing is asked of the graphs, nor of the numbers.
-/

set_option autoImplicit false

namespace TxnPath

variable {R : Type}

/-- What is recorded of a vertex: what it stands for, its hits in both windows together, and its
measurements. -/
def Vertex.record (x : Vertex R) : VertexKind × Nat × Nat × Nat :=
  (x.kind, x.hits, x.execNanos, x.execSamples)

namespace Graph

open Outcome (Agree)

variable {g g' g'' : Graph R} {u v : Nat}

/-- The same is recorded in two graphs: vertex by vertex, edge by edge, and in the number of
transactions. -/
structure SameRecord (g g' : Graph R) : Prop where
  key : g'.key = g.key
  partitions : g'.partitions = g.partitions
  sentinels : g'.sentinels = g.sentinels
  vertices : ∀ v : Nat, (g'.vertices[v]?).map Vertex.record = (g.vertices[v]?).map Vertex.record
  edges : ∀ i : Nat, (g'.edges[i]?).map Edge.tally = (g.edges[i]?).map Edge.tally
  txns : g'.txns = g.txns

/-- In a graph the same is recorded as in itself. -/
theorem SameRecord.refl (g : Graph R) : SameRecord g g :=
  ⟨rfl, rfl, rfl, fun _ => rfl, fun _ => rfl, rfl⟩

/-- What is recorded can be compared one operation after the other. -/
theorem SameRecord.trans (h : SameRecord g g') (h' : SameRecord g' g'') : SameRecord g g'' where
  key := h'.key.trans h.key
  partitions := h'.partitions.trans h.partitions
  sentinels := h'.sentinels.trans h.sentinels
  vertices := fun v => (h'.vertices v).trans (h.vertices v)
  edges := fun i => (h'.edges i).trans (h.edges i)
  txns := h'.txns.trans h.txns

/-- Folding the window moves hits to the totals. -/
theorem sameRecord_foldWindow (g : Graph R) : SameRecord g g.foldWindow where
  key := rfl
  partitions := rfl
  sentinels := rfl
  vertices := fun v => by
    rw [foldWindow, Array.getElem?_map, Option.map_map]
    rfl
  edges := fun i => by
    rw [foldWindow, Array.getElem?_map, Option.map_map]
    rfl
  txns := rfl

/-! ### What is looked up depends on what is recorded -/

/-- The base partition is part of the key. -/
theorem SameRecord.base (h : g.SameRecord g') : g'.base = g.base := congrArg GraphKey.base h.key

/-- Vertex by vertex the same is recorded, hence in the arenas as a whole. -/
theorem SameRecord.records (h : g.SameRecord g') :
    g'.vertices.map Vertex.record = g.vertices.map Vertex.record :=
  Array.ext_getElem? fun v => by rw [Array.getElem?_map, Array.getElem?_map, h.vertices]

/-- Likewise for the edges. -/
theorem SameRecord.tallies (h : g.SameRecord g') :
    g'.edges.map Edge.tally = g.edges.map Edge.tally :=
  Array.ext_getElem? fun i => by rw [Array.getElem?_map, Array.getElem?_map, h.edges]

/-- The graphs have equally many vertices. -/
theorem SameRecord.size_vertices (h : g.SameRecord g') : g'.vertices.size = g.vertices.size := by
  simpa using congrArg Array.size h.records

/-- They have equally many edges. -/
theorem SameRecord.size_edges (h : g.SameRecord g') : g'.edges.size = g.edges.size := by
  simpa using congrArg Array.size h.tallies

/-- Which vertices are terminal is a matter of their kinds, hence of the record. -/
theorem SameRecord.isTerminal (h : g.SameRecord g') (v : Nat) :
    g'.isTerminal v = g.isTerminal v := by
  have hkind := congrArg (Option.map Prod.fst) (h.vertices v)
  rw [Option.map_map, Option.map_map] at hkind
  exact isTerminal_congr hkind

/-- A call is looked up among the kinds, so that both graphs find the same vertex. -/
theorem SameRecord.findCall? (h : g.SameRecord g') (c : Call) :
    g'.findCall? c = g.findCall? c := by
  have hrecords : ∀ g : Graph R, g.findCall? c
      = (g.vertices.map Vertex.record).findIdx? fun x => x.1.call?.any c.sameAs := fun g => by
    rw [Array.findIdx?_map]
    rfl
  rw [hrecords, hrecords, h.records]

/-- An edge is looked up by its ends, so that both graphs find the same one. -/
theorem SameRecord.findEdge? (h : g.SameRecord g') (u v : Nat) :
    g'.findEdge? u v = g.findEdge? u v := by
  have htallies : ∀ g : Graph R, g.findEdge? u v
      = (g.edges.map Edge.tally).findIdx? fun x => x.1.1 == u && x.1.2 == v := fun g => by
    rw [Array.findIdx?_map]
    rfl
  rw [htallies, htallies, h.tallies]

/-- Both graphs have the sentinels, or neither has. -/
theorem SameRecord.requireSentinels (h : g.SameRecord g') :
    g'.requireSentinels = g.requireSentinels := by
  rw [Graph.requireSentinels, Graph.requireSentinels, h.sentinels]
  cases hg : g.sentinels with
  | some s => rfl
  | none =>
    dsimp only
    rw [show g'.procedure = g.procedure from congrArg GraphKey.procedure h.key, h.base]

/-! ### Recording on both sides -/

/-- What is done to one vertex alike is recorded alike. It has to be an operation on records, as
hits and times are. -/
theorem SameRecord.modifyVertex (h : g.SameRecord g') (v : Nat) {f : Vertex R → Vertex R}
    (f' : VertexKind × Nat × Nat × Nat → VertexKind × Nat × Nat × Nat)
    (hf : ∀ x, (f x).record = f' x.record) :
    SameRecord { g with vertices := g.vertices.modify v f }
      { g' with vertices := g'.vertices.modify v f } where
  key := h.key
  partitions := h.partitions
  sentinels := h.sentinels
  vertices := fun u => by
    -- Modifying comes down to what the change does to a record.
    have hrecord : ∀ x : Option (Vertex R), (x.map f).map Vertex.record
        = (x.map Vertex.record).map f' := fun x => by
      cases x with
      | none => rfl
      | some x => exact congrArg some (hf x)
    rw [Array.getElem?_modify, Array.getElem?_modify]
    split
    · rw [hrecord, hrecord, h.vertices]
    · exact h.vertices u
  edges := h.edges
  txns := h.txns

/-- Hitting a vertex adds one to a recorded counter of both. -/
theorem SameRecord.hitVertex (h : g.SameRecord g') (v : Nat) :
    (g.hitVertex v).SameRecord (g'.hitVertex v) :=
  h.modifyVertex v (fun (kind, hits, times) => (kind, hits + 1, times)) fun _ => rfl

/-- So does the time of a query. -/
theorem SameRecord.addTime (h : g.SameRecord g') (v nanos : Nat) :
    (g.addTime v nanos).SameRecord (g'.addTime v nanos) :=
  h.modifyVertex v (fun (kind, hits, sum, samples) =>
    (kind, hits, min (sum + nanos) (wordLimit - 1), samples + 1)) fun _ => rfl

/-- And a hit of an edge. -/
theorem SameRecord.hitEdge (h : g.SameRecord g') (i : Nat) :
    (g.hitEdge i).SameRecord (g'.hitEdge i) where
  key := h.key
  partitions := h.partitions
  sentinels := h.sentinels
  vertices := h.vertices
  edges := fun j => by
    have htally : ∀ e : Option (Edge R),
        (e.map fun e => { e with windowHits := e.windowHits + 1 }).map Edge.tally
          = (e.map Edge.tally).map fun (ends, hits) => (ends, hits + 1) := fun e => by
      cases e <;> rfl
    rw [Graph.hitEdge, Graph.hitEdge, Array.getElem?_modify, Array.getElem?_modify]
    split
    · rw [htally, htally, h.edges]
    · exact h.edges j
  txns := h.txns

/-- And a transaction that is counted. -/
theorem SameRecord.recordTxn (h : g.SameRecord g') : g.recordTxn.SameRecord g'.recordTxn :=
  ⟨h.key, h.partitions, h.sentinels, h.vertices, h.edges, congrArg (· + 1) h.txns⟩

/-- A vertex that is appended to both graphs has recorded nothing yet. -/
theorem SameRecord.pushVertex (h : g.SameRecord g') (kind : VertexKind) :
    (g.pushVertex kind).SameRecord (g'.pushVertex kind) where
  key := h.key
  partitions := h.partitions
  sentinels := h.sentinels
  vertices := fun v => by
    rw [Graph.pushVertex, Graph.pushVertex, Array.getElem?_push, Array.getElem?_push,
      h.size_vertices]
    split
    · rfl
    · exact h.vertices v
  edges := h.edges
  txns := h.txns

/-- A call gets the same vertex. -/
theorem SameRecord.ensureCall (h : g.SameRecord g') (c : Call) :
    (g.ensureCall c).1.SameRecord (g'.ensureCall c).1
      ∧ (g'.ensureCall c).2 = (g.ensureCall c).2 := by
  rw [Graph.ensureCall, Graph.ensureCall, h.findCall?]
  cases g.findCall? c with
  | some v => exact ⟨h, rfl⟩
  | none => exact ⟨h.pushVertex _, h.size_vertices⟩

section Link

variable [Zero R]

/-- A step gets the same edge. -/
theorem SameRecord.ensureEdge (h : g.SameRecord g') (u v : Nat) :
    (g.ensureEdge u v).1.SameRecord (g'.ensureEdge u v).1
      ∧ (g'.ensureEdge u v).2 = (g.ensureEdge u v).2 := by
  rw [Graph.ensureEdge, Graph.ensureEdge, h.findEdge?]
  cases g.findEdge? u v with
  | some i => exact ⟨h, rfl⟩
  | none =>
    refine ⟨⟨h.key, h.partitions, h.sentinels, h.vertices, fun i => ?_, h.txns⟩, h.size_edges⟩
    dsimp only
    rw [Array.getElem?_push, Array.getElem?_push, h.size_edges]
    split
    · rfl
    · exact h.edges i

/-- Linking looks an edge up by its ends, adds it where there is none, and hits it: each time the
same in both graphs. -/
theorem SameRecord.link (h : g.SameRecord g') (u v : Nat) :
    (g.link u v).1.SameRecord (g'.link u v).1 ∧ (g'.link u v).2 = (g.link u v).2 := by
  obtain ⟨hedge, hnumber⟩ := h.ensureEdge u v
  have hhit := (hedge.hitEdge (g.ensureEdge u v).2).hitVertex u
  rw [Graph.link, Graph.link]
  dsimp only
  rw [hnumber, hhit.isTerminal]
  refine ⟨?_, rfl⟩
  split
  · exact hhit.hitVertex v
  · exact hhit

/-- With the ends checked first, both graphs take the step or neither does. -/
theorem SameRecord.link? (h : g.SameRecord g') (u v : Nat) :
    Agree SameRecord (g.link? u v) (g'.link? u v) := by
  have hlink := h.link u v
  rw [Graph.link?, Graph.link?, h.size_vertices]
  generalize g.link u v = x at hlink
  generalize g'.link u v = y at hlink
  obtain ⟨g₁, i⟩ := x
  obtain ⟨g₁', i'⟩ := y
  obtain ⟨h₁, rfl⟩ := hlink
  split
  · exact .ok h₁ _
  · exact .error _

omit [Zero R] in
/-- Preparing a query finds or adds its vertex at the same place in both graphs, and hits it. -/
theorem SameRecord.prepared (h : g.SameRecord g') (c : Call) (q : Query) :
    (g.prepared c q).SameRecord (g'.prepared c q) := by
  obtain ⟨hcall, hvertex⟩ := h.ensureCall c
  rw [Graph.prepared, Graph.prepared, hvertex]
  cases q.elapsed with
  | none => exact hcall
  | some nanos => exact hcall.addTime _ nanos

/-- The step to the vertex of a call goes alike in both graphs, with the same fault if there is one.
-/
theorem SameRecord.advance (h : g.SameRecord g') (before : Nat) (c : Call) (q : Query) :
    Agree SameRecord (g.advance before c q) (g'.advance before c q) := by
  rw [advance_eq, advance_eq, (h.ensureCall c).2]
  refine ((h.prepared c q).link? before _).bind fun {g₁ g₁'} i h₁ => ?_
  dsimp only
  rw [h₁.requireSentinels]
  split
  · cases g₁.requireSentinels with
    | error f => exact .error f
    | ok s => exact .ok (h₁.link _ s.abort).1 _
  · exact .ok h₁ _

end Link

/-! ### Replaying on both sides -/

section Replay

variable [Zero R] {p : Procedure} {r : Router}

/-- Queries are recorded in the same way, up to the same one. What a graph has derived is not read
while recording, and neither is how the hits of a vertex are split into the window and the totals.
-/
theorem SameRecord.replayQueries (h : g.SameRecord g') (u : Nat) (called : List StatementId)
    (qs : List Query) :
    Agree SameRecord (Graph.replayQueries p r g u called qs)
      (Graph.replayQueries p r g' u called qs) := by
  induction qs generalizing g g' u called with
  | nil => exact .ok h _
  | cons q qs ih =>
    rw [Graph.replayQueries, Graph.replayQueries, observe, observe, h.base]
    -- Queries are resolved by the procedure, the router and the base partition: the graphs have no
    -- say in it.
    cases q.resolve p r g.base called with
    | error e => exact .ok h _
    | ok c =>
      dsimp only
      have hstep := h.advance u c q
      generalize g.advance u c q = x at hstep
      generalize g'.advance u c q = y at hstep
      cases hstep with
      | error f => exact .error f
      | @ok g₁ g₁' h₁ step =>
        dsimp only
        split
        · exact .ok h₁ _
        -- The trace goes on from the same vertex in both graphs.
        · have hrest := ih h₁ step.vertex (called ++ [c.statement])
          generalize Graph.replayQueries p r g₁ step.vertex _ qs = x at hrest ⊢
          generalize Graph.replayQueries p r g₁' step.vertex _ qs = y at hrest ⊢
          cases hrest with
          | error f => exact .error f
          | ok h₂ visited => exact .ok h₂ _

/-- Graphs in which the same is recorded take a trace in the same way. -/
theorem SameRecord.replay (h : g.SameRecord g') (t : Trace) :
    Agree SameRecord (g.replay t p r) (g'.replay t p r) := by
  rw [Graph.replay, Graph.replay, h.requireSentinels]
  cases g.requireSentinels with
  | error f => exact .error f
  | ok s =>
    have hqueries := h.replayQueries (p := p) (r := r) s.start [] t.queries
    refine hqueries.bind fun {g₁ g₁'} visited h₁ => ?_
    obtain ⟨visited, result⟩ := visited
    rcases result with e | _ | _
    · exact .ok h₁ _
    · exact .ok (h₁.link _ _).1.recordTxn _
    · exact .ok h₁.recordTxn _

end Replay

/-! ### Recomputing -/

section Recompute

variable [Scalar R] {g₀ : Graph R} {skipped settled order : List Nat}

/-- Deriving probabilities records nothing. It unsets all tables, weighs the edges and settles the
vertices in order, and a record is what a vertex has beside its table and an edge beside its weight.
-/
theorem SameButTables.sameRecord (h : SameButTables g.unsetTables.weighEdges g') :
    SameRecord g g' where
  key := by rw [h.frame]; rfl
  partitions := by rw [h.frame]; rfl
  sentinels := by rw [h.frame]; rfl
  vertices := fun v => by
    have hunset : (g.unsetTables.weighEdges.vertices[v]?).map Vertex.record
        = (g.vertices[v]?).map Vertex.record := by
      rw [weighEdges, unsetTables, Array.getElem?_map, Option.map_map]
      rfl
    -- Tables were unset before any was written, so they do not show here either.
    rw [← hunset]
    cases hx : g.unsetTables.weighEdges.vertices[v]? with
    | some x =>
      obtain ⟨t, ht⟩ := h.vertex v x hx
      rw [ht]
      rfl
    | none =>
      rw [Array.getElem?_eq_none_iff, ← h.size] at hx
      rw [Array.getElem?_eq_none hx]
  edges := fun i => by
    rw [h.edges, weighEdges, Array.getElem?_map, Option.map_map]
    rfl
  txns := by rw [h.frame]; rfl

/-- Wherever settling gets to its end, it has set tables only. It is by induction on the order in
which the vertices are settled, for every graph that it may have come to. -/
theorem SameButTables.settleAll (h : SameButTables g₀ g)
    (hrun : Graph.settleAll skipped g settled order = .ok g') : SameButTables g₀ g' := by
  induction order generalizing g settled with
  | nil =>
    cases hrun
    exact h
  | cons v order ih =>
    rw [Graph.settleAll] at hrun
    split at hrun
    · cases hrun
    -- The vertex that is settled gets a table, unless it is skipped, and the others keep theirs.
    case h_2 g₁ hsettle =>
    refine ih ?_ hrun
    rw [settle] at hsettle
    split at hsettle
    · cases hsettle
    case h_2 x hx =>
    split at hsettle
    · cases hsettle
      exact h.set hx _
    · split at hsettle
      · cases hsettle
      · cases hsettle
        exact h.set hx _

/-- Recomputing records nothing, whatever the graph looks like. -/
theorem sameRecord_recompute (hrun : g.recompute = .ok g') : g.SameRecord g' := by
  rw [recompute, derive] at hrun
  split at hrun
  · cases hrun
  · exact (sameRecord_foldWindow g).trans
      ((SameButTables.refl _).settleAll hrun).sameRecord

/-! ### What recomputing starts from -/

/-- The vertex of a record: its hits are all totals, and it has no probabilities. -/
def vertexOf (n : Nat) (x : VertexKind × Nat × Nat × Nat) : Vertex R :=
  ⟨x.1, x.2.1, 0, x.2.2.1, x.2.2.2, .unset n⟩

/-- The edge of a tally: its hits are all totals, and it has no probability. -/
def edgeOf (x : (Nat × Nat) × Nat) : Edge R := ⟨x.1.1, x.1.2, x.2, 0, 0⟩

omit [Scalar R] in
/-- What recomputing begins with is a function of what is recorded: the vertices with the window
folded in and an empty table each. -/
theorem vertices_unset (g : Graph R) : g.foldWindow.unsetTables.vertices
    = (g.vertices.map Vertex.record).map (vertexOf g.partitions) := by
  rw [unsetTables, Graph.foldWindow, Array.map_map, Array.map_map]
  rfl

/-- Likewise for the edges, whose weights are all derived anew. -/
theorem edges_unweighed (g : Graph R) :
    g.foldWindow.edges.map Edge.unweighed = (g.edges.map Edge.tally).map edgeOf := by
  rw [Graph.foldWindow, Array.map_map, Array.map_map]
  rfl

/-- Of graphs in which the same is recorded, it is forgotten in the end how hits were split between
the window and the totals. -/
theorem SameRecord.unset_eq (h : g.SameRecord g') :
    g'.foldWindow.unsetTables.weighEdges = g.foldWindow.unsetTables.weighEdges := by
  -- With the window folded, graphs differ in the weights of their edges only.
  have hunset : g'.foldWindow.unsetTables
      = { g.foldWindow.unsetTables with edges := g'.foldWindow.edges } := by
    have hsame : g'.foldWindow.unsetTables.vertices = g.foldWindow.unsetTables.vertices := by
      rw [vertices_unset, vertices_unset, h.partitions, h.records]
    have hframe : ∀ g' : Graph R, g'.foldWindow.unsetTables
        = ⟨g'.key.procedure, g'.key.base, g'.partitions, g'.foldWindow.unsetTables.vertices,
          g'.foldWindow.edges, g'.sentinels, g'.txns, 0⟩ := fun _ => rfl
    rw [hframe g', hframe g, hsame, h.key, h.partitions, h.sentinels, h.txns]
  rw [hunset]
  refine weighEdges_congr ?_
  show g'.foldWindow.edges.map Edge.unweighed = g.foldWindow.edges.map Edge.unweighed
  rw [edges_unweighed, edges_unweighed, h.tallies]

/-- Recomputing two graphs in which the same is recorded gives one graph. -/
theorem SameRecord.recompute_eq (h : g.SameRecord g') : g'.recompute = g.recompute :=
  derive_congr h.unset_eq

end Recompute

end Graph

end TxnPath
