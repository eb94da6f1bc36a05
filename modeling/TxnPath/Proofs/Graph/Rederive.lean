import TxnPath.Proofs.Graph.Tangled

/-!
# `TxnPath.Proofs.Graph.Rederive`: what deriving depends on

Deriving probabilities starts by forgetting what was derived before. It depends on nothing but the
kinds and totals of vertices, the ends and totals of edges, and the place of the sentinels
(`derive_congr`), so that deriving twice is deriving once (`Initialized.derive_derive`). It counts
no hits either: a graph without a window stays one (`SameButTables.folded`).
-/

set_option autoImplicit false

namespace TxnPath

variable {R : Type}

/-- An edge without its probability. -/
def Edge.unweighed [Zero R] (e : Edge R) : Edge R := { e with probability := 0 }

namespace Graph

variable {g g' : Graph R} {s : Sentinels}

/-! ### What deriving depends on -/

/-- The order is a matter of the shape and of where the sentinels are. -/
theorem reverseOrder_congr (hshape : g'.shape = g.shape) (hsentinels : g'.sentinels = g.sentinels) :
    g'.reverseOrder = g.reverseOrder := by
  rw [reverseOrder, reverseOrder, sinks, sinks, backEdges_congr hshape hsentinels, hshape, hsentinels]

/-- What does not depend on tables is the same at every vertex if only tables differ. -/
theorem SameButTables.map_vertices {α : Type} {f : Vertex R → α} (h : SameButTables g g')
    (hf : ∀ x t, f { x with probs := t } = f x) : g'.vertices.map f = g.vertices.map f := by
  refine Array.ext_getElem? fun v => ?_
  rw [Array.getElem?_map, Array.getElem?_map]
  cases hx : g.vertices[v]? with
  | some x =>
    obtain ⟨t, ht⟩ := h.vertex v x hx
    rw [ht, Option.map_some, Option.map_some, hf]
  | none =>
    have hout : g'.vertices[v]? = none := by
      rw [Array.getElem?_eq_none_iff, h.size]
      exact Array.getElem?_eq_none_iff.mp hx
    rw [hout]

section Derive

variable [Scalar R]

/-- Edges are weighed by hits, and not by what they weighed before. -/
theorem weighEdges_congr {es es' : Array (Edge R)}
    (h : es'.map Edge.unweighed = es.map Edge.unweighed) :
    weighEdges { g with edges := es' } = weighEdges { g with edges := es } := by
  let weigh : Edge R → Edge R := fun e =>
    let hits := g.totalHits e.source
    { e with probability := if 0 < hits then Scalar.ratio e.totalHits hits else 0 }
  have hmap : ∀ es : Array (Edge R), es.map weigh = (es.map Edge.unweighed).map weigh := fun es => by
    rw [Array.map_map]
    rfl
  show ({ g with edges := es'.map weigh } : Graph R) = { g with edges := es.map weigh }
  rw [hmap, h, ← hmap]

/-- Deriving starts by forgetting what was derived before, and depends on nothing else. -/
theorem derive_congr (h : g'.unsetTables.weighEdges = g.unsetTables.weighEdges) :
    g'.derive = g.derive := by
  have hshape : g'.shape = g.shape := by rw [← shape_weighEdges g', h, shape_weighEdges]
  have hsentinels : g'.unsetTables.weighEdges.sentinels = g.unsetTables.weighEdges.sentinels :=
    congrArg Graph.sentinels h
  rw [derive, derive, reverseOrder_congr hshape hsentinels, h]

/-- What was derived is forgotten again. Hence deriving twice is deriving once: the second time
starts from the very same graph. -/
theorem SameButTables.unsetTables_weighEdges (h : SameButTables g.unsetTables.weighEdges g') :
    g'.unsetTables.weighEdges = g.unsetTables.weighEdges := by
  have hvertices : g'.unsetTables.vertices = g.unsetTables.vertices := by
    have hpartitions : g'.partitions = g.partitions := by
      rw [h.frame]
      rfl
    show g'.vertices.map _ = _
    rw [hpartitions, h.map_vertices fun _ _ => rfl, weighEdges, unsetTables, Array.map_map]
    rfl
  -- Edges differ in their weights, which are weighed anew from the same hits.
  have hedges : g'.edges.map Edge.unweighed = g.edges.map Edge.unweighed := by
    rw [h.edges, weighEdges, Array.map_map]
    rfl
  have hunset : g'.unsetTables = { g.unsetTables with edges := g'.edges } := by
    show ({ g' with vertices := g'.unsetTables.vertices } : Graph R) = _
    rw [hvertices, h.frame]
    rfl
  rw [hunset]
  exact weighEdges_congr hedges

/-- Deriving twice is deriving once. -/
theorem Initialized.derive_derive (hinit : g.Initialized s) (h : g.derive = .ok g') :
    g'.derive = .ok g' := by
  rw [derive_congr (hinit.derive_same h).2.unsetTables_weighEdges, h]

end Derive

/-! ### Graphs without a window -/

/-- Nothing was hit since the last recomputation. Folding such a graph changes nothing, so that only
deriving is left of a recomputation. -/
structure Folded (g : Graph R) : Prop where
  vertices : ∀ x ∈ g.vertices, x.windowHits = 0
  edges : ∀ e ∈ g.edges, e.windowHits = 0
  txns : g.windowTxns = 0

/-- The window is empty when it has been folded. -/
theorem folded_foldWindow (g : Graph R) : g.foldWindow.Folded where
  vertices := fun x hx => by
    obtain ⟨_, _, rfl⟩ := Array.mem_map.mp hx
    rfl
  edges := fun e he => by
    obtain ⟨_, _, rfl⟩ := Array.mem_map.mp he
    rfl
  txns := rfl

/-- Deriving probabilities counts no hits. A window that was empty is still empty, at vertices, at
edges and in the count of transactions. -/
theorem SameButTables.folded [Scalar R] (h : SameButTables g.unsetTables.weighEdges g')
    (hfolded : g.Folded) : g'.Folded where
  vertices := fun x hx => by
    obtain ⟨v, hv⟩ := Array.mem_iff_getElem?.mp hx
    have hlt : v < g.unsetTables.weighEdges.vertices.size :=
      h.size ▸ (Array.getElem?_eq_some_iff.mp hv).1
    obtain ⟨t, ht⟩ := h.vertex v _ (Array.getElem?_eq_getElem hlt)
    obtain ⟨y, hy, heq⟩ := Array.mem_map.mp (Array.getElem_mem hlt)
    rw [Option.some.inj (hv.symm.trans ht), ← heq]
    exact hfolded.vertices y hy
  edges := fun e he => by
    rw [h.edges] at he
    obtain ⟨y, hy, rfl⟩ := Array.mem_map.mp he
    exact hfolded.edges y hy
  txns := by
    rw [h.frame]
    exact hfolded.txns

end Graph

end TxnPath
