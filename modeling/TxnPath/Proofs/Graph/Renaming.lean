import TxnPath.Proofs.Graph.AbortRate
import TxnPath.Proofs.Graph.Arena
import TxnPath.Proofs.Graph.Windows
import TxnPath.Proofs.Walk.Forced

/-!
# `TxnPath.Proofs.Graph.Renaming`: graphs that differ in their numbers

Two graphs may have the same vertices and edges under other numbers and in another order
(`Graph.Renamed`). The probabilities of edges are part of what they agree in. Those of vertices are
derived by a search and a peeling that both go by the numbers. In a graph without a cycle nothing is
skipped, however it is numbered, and the table of a vertex is determined by those of its successors,
in any order if sums of three do not depend on it: so that both graphs have the same tables
(`Renamed.tables`).
-/

set_option autoImplicit false

namespace TxnPath

open Relation (TransGen)

variable {R : Type}

/-- What a vertex stands for, and what is counted and measured there. -/
def Vertex.counters (x : Vertex R) : VertexKind × Nat × Nat × Nat × Nat :=
  (x.kind, x.totalHits, x.windowHits, x.execNanos, x.execSamples)

/-- An edge between vertices that have other numbers. -/
def Edge.rename (σ : Nat → Nat) (e : Edge R) : Edge R :=
  { e with source := σ e.source, target := σ e.target }

/-- Sentinels that have other numbers. -/
def Sentinels.rename (σ : Nat → Nat) (s : Sentinels) : Sentinels :=
  ⟨σ s.start, σ s.commit, σ s.abort⟩

namespace Graph

variable {g g' : Graph R} {s : Sentinels} {σ : Nat → Nat} {u v w : Nat}

/-- A graph is another with its vertices renamed and its edges in another order, whatever the tables
of the vertices. -/
structure Renamed (σ : Nat → Nat) (g g' : Graph R) : Prop where
  key : g'.key = g.key
  partitions : g'.partitions = g.partitions
  txns : g'.txns = g.txns
  windowTxns : g'.windowTxns = g.windowTxns
  size : g'.vertices.size = g.vertices.size
  injective : ∀ u < g.vertices.size, ∀ v < g.vertices.size, σ u = σ v → u = v
  vertices : ∀ v < g.vertices.size,
    (g'.vertices[σ v]?).map Vertex.counters = (g.vertices[v]?).map Vertex.counters
  sentinels : g'.sentinels = g.sentinels.map (Sentinels.rename σ)
  edges : (g.edges.toList.map (Edge.rename σ)).Perm g'.edges.toList

/-! ### Cycles -/

/-- Edges of a renamed graph lead where those of the graph lead. -/
theorem Renamed.leads (h : Renamed σ g g') (hinit : g.Initialized s) (hleads : g'.shape.Leads u v) :
    ∃ a b, g.shape.Leads a b ∧ a < g.vertices.size ∧ b < g.vertices.size ∧ u = σ a ∧ v = σ b := by
  obtain ⟨e', he', rfl, rfl⟩ := joins_iff_leads.mpr hleads
  obtain ⟨e, he, rfl⟩ := List.mem_map.mp (h.edges.mem_iff.mpr (Array.mem_toList_iff.mpr he'))
  have he := Array.mem_toList_iff.mp he
  exact ⟨e.source, e.target, joins_iff_leads.mp ⟨e, he, rfl, rfl⟩, (hinit.edges e he).1,
    (hinit.edges e he).2, rfl, rfl⟩

/-- A way in a renamed graph is a way in the graph, renamed. It is followed step by step; two steps
meet because vertices have different new numbers. -/
theorem Renamed.transGen (h : Renamed σ g g') (hinit : g.Initialized s)
    (hleads : TransGen g'.shape.Leads u v) :
    ∃ a b, TransGen g.shape.Leads a b ∧ a < g.vertices.size ∧ b < g.vertices.size
      ∧ u = σ a ∧ v = σ b := by
  induction hleads with
  | single hstep =>
    obtain ⟨a, b, hab, ha, hb, hu, hv⟩ := h.leads hinit hstep
    exact ⟨a, b, .single hab, ha, hb, hu, hv⟩
  | tail _ hstep ih =>
    obtain ⟨a, b, hab, ha, hb, hu, hv⟩ := ih
    -- The next edge leaves the vertex that the last one entered, as no two share a number.
    obtain ⟨b', c, hbc, hb', hc, hv', hw⟩ := h.leads hinit hstep
    obtain rfl := h.injective b hb b' hb' (hv.symm.trans hv')
    exact ⟨a, c, hab.tail hbc, ha, hc, hu, hw⟩

/-- A renamed graph has no cycle if the graph has none. -/
theorem Renamed.acyclic (h : Renamed σ g g') (hinit : g.Initialized s)
    (hacyclic : g.shape.Acyclic) : g'.shape.Acyclic := by
  intro u hcycle
  obtain ⟨a, b, hab, ha, hb, hu, hv⟩ := h.transGen hinit hcycle
  obtain rfl := h.injective a ha b hb (hu.symm.trans hv)
  exact hacyclic a hab

/-! ### Edges that leave a vertex -/

/-- The edges that leave a vertex leave it under its other number, in some order. -/
theorem Renamed.leaving (h : Renamed σ g g') (hinit : g.Initialized s) (hv : v < g.vertices.size) :
    ((g.leaving v).map (Edge.rename σ)).Perm (g'.leaving (σ v)) := by
  have hfilter : (g.edges.toList.map (Edge.rename σ)).filter (fun e => e.source == σ v)
      = (g.leaving v).map (Edge.rename σ) := by
    rw [List.filter_map, Graph.leaving]
    refine congrArg (List.map (Edge.rename σ)) (List.filter_congr fun e he => ?_)
    have hsource := (hinit.edges e (Array.mem_toList_iff.mp he)).1
    rw [Function.comp_apply, Bool.eq_iff_iff, beq_iff_eq, beq_iff_eq]
    exact ⟨fun heq => h.injective _ hsource _ hv heq, congrArg σ⟩
  exact hfilter ▸ h.edges.filter _

/-! ### Tables -/

section Tables

variable [Scalar R] {x y : Vertex R} {succs succs' : List (Successor R)}

/-- Sums over successors do not depend on the order if sums of three do not. -/
theorem weighted_perm (hadd : ∀ a b c : R, a + b + c = a + c + b) (hperm : succs.Perm succs')
    (value : Successor R → R) :
    Successor.weighted succs' value = Successor.weighted succs value :=
  hperm.symm.foldl_eq' (fun _ _ _ _ _ => hadd _ _ _) 0

/-- A table depends on what its vertex stands for, and on sums over the successors. -/
theorem tableFrom_congr (hkind : y.kind = x.kind)
    (hsums : Successor.weighted succs' = Successor.weighted succs) (base n : Nat) :
    y.tableFrom base n succs' = x.tableFrom base n succs := by
  have hbare : ∀ (x : Vertex R) succs, x.tableFrom base n succs
      = (Vertex.new x.kind n).tableFrom base n succs := fun _ _ => rfl
  have houtlook : (Vertex.new x.kind n).outlookFrom succs'
      = (Vertex.new x.kind n).outlookFrom succs := funext fun p => by
    rw [Vertex.outlookFrom, Vertex.outlookFrom, hsums]
  rw [hbare y, hbare x, hkind, Vertex.tableFrom, Vertex.tableFrom, hsums, houtlook]

/-- The probabilities of a graph are derived from its totals, and nothing was counted since. They
are then determined by what was counted, up to the places of the vertices. -/
structure Derived (g : Graph R) : Prop where
  folded : g.Folded
  /-- The probability of an edge is its share of the hits of its source. -/
  weight : ∀ e ∈ g.edges, e.probability
    = if 0 < g.vertexHits e.source then Scalar.ratio e.hits (g.vertexHits e.source) else 0
  /-- The table of every vertex follows from the tables of its successors. -/
  settled : ∀ v < g.vertices.size, g.LocallySettled g.backEdges v
  /-- The edges that are not skipped lead from later to earlier vertices of some order. -/
  descends : ∃ order, (g.shape.without g.backEdges).Descends order
    ∧ ∀ v, v ∈ order ↔ v < g.vertices.size

/-- Recomputing derives the probabilities of a graph that holds paths. All that being derived asks
for is known of deriving; what remains is to say it of the graph before, whose window was folded. -/
theorem Recorded.derived {paths : List (List Nat)} {n : Nat} (h : g.Recorded s paths n)
    (hrun : g.recompute = .ok g') : g'.Derived := by
  have hfold := h.of_sameHits h.initialized.foldWindow (sameHits_foldWindow g)
  obtain ⟨order, horder, _, hmem, hdescends⟩ := hfold.initialized.reverseOrder_ok hfold.ends
  obtain ⟨r, g₁, horder', hderive, hsame, hsettled, _⟩ := hfold.initialized.derive_ok hfold.ends
  -- Recomputing is folding and deriving, and the order it settles vertices in is unique.
  cases hrun.symm.trans hderive
  cases horder.symm.trans horder'
  have hshape := hsame.shape.trans (shape_weighEdges g.foldWindow)
  have hback : g'.backEdges = g.foldWindow.backEdges :=
    backEdges_congr hshape hsame.sameLayout.sentinels
  have hsize : g'.vertices.size = g.foldWindow.vertices.size := hsame.size.trans Array.size_map
  refine ⟨hsame.folded (folded_foldWindow g), hsame.probability, ?_, order.reverse, ?_, ?_⟩
  · rw [hback, hsize]
    exact hsettled
  · rw [hback, hshape]
    exact hdescends
  · intro v
    rw [List.mem_reverse, hmem, hsize]

/-- With nothing skipped, the successors of a vertex are all that its edges lead to. -/
theorem keptSuccessors_nil (g : Graph R) (v : Nat) :
    g.keptSuccessors [] v = (g.leaving v).map g.successor := by
  rw [keptSuccessors, kept, List.filter_eq_self.mpr (by simp), ← map_fst_outgoing, List.map_map]
  rfl

/-- Without a cycle, a table does not depend on how vertices and edges are numbered. Every edge is
kept on both sides, and a table is determined by the counters of its vertex and the tables that its
edges lead to, which agree by induction. The order of the edges may differ: hence the condition on
sums. -/
theorem Renamed.tables (h : Renamed σ g g') (hinit : g.Initialized s) (hg : g.Derived)
    (hg' : g'.Derived) (hadd : ∀ a b c : R, a + b + c = a + c + b) (hacyclic : g.shape.Acyclic) :
    ∀ v < g.vertices.size, g'.table (σ v) = g.table v := by
  have hnone := backEdges_of_acyclic hacyclic
  have hnone' := backEdges_of_acyclic (h.acyclic hinit hacyclic)
  obtain ⟨order, hdescends, hmem⟩ := hg.descends
  -- The induction is along the edges, from the vertices that none leaves.
  refine fun v hv => hdescends.induction (P := fun v => g'.table (σ v) = g.table v)
    (fun v hv htargets => ?_) v ((hmem v).mpr hv)
  have hv := (hmem v).mp hv
  have hx := Array.getElem?_eq_getElem hv
  have hsame := h.vertices v hv
  rw [hx, Option.map_some] at hsame
  obtain ⟨y, hy, hcounters⟩ := Option.map_eq_some_iff.mp hsame
  have hv' : σ v < g'.vertices.size := (Array.getElem?_eq_some_iff.mp hy).1
  have hsuccessor : ∀ e ∈ g.leaving v, g'.successor (e.rename σ) = g.successor e := by
    intro e he
    obtain ⟨he, hsource⟩ := mem_leaving.mp he
    obtain ⟨i, hi⟩ := Array.mem_iff_getElem?.mp he
    have hkept : (e, i) ∈ g.kept g.backEdges v := mem_kept.mpr ⟨hi, hsource, by simp [hnone]⟩
    have htarget : g'.table (e.rename σ).target = g.table e.target :=
      htargets _ (arc_of_kept hkept) rfl
    rw [successor, successor, htarget, h.partitions]
    rfl
  have hsuccs : (g.keptSuccessors [] v).Perm (g'.keptSuccessors [] (σ v)) := by
    rw [keptSuccessors_nil, keptSuccessors_nil, ← List.map_congr_left hsuccessor,
      ← Function.comp_def, ← List.map_map]
    exact (h.leaving hinit hv).map _
  have hsettled := hg.settled v hv _ hx
  have hsettled' := hg'.settled _ hv' _ hy
  rw [hnone] at hsettled
  rw [hnone', show g'.base = g.base from congrArg GraphKey.base h.key, h.partitions] at hsettled'
  rw [table_eq hx, table_eq hy, hsettled, hsettled']
  exact tableFrom_congr (congrArg Prod.fst hcounters) (funext (weighted_perm hadd hsuccs)) _ _

end Tables

end Graph

end TxnPath
