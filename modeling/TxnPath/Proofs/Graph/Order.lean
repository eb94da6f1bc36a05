import TxnPath.Proofs.Graph.Frontier
import TxnPath.Proofs.Graph.Initialized

/-!
# `TxnPath.Proofs.Graph.Order`: the reverse order of a graph

On an initialized graph whose COMMIT and ABORT no edge leaves, the reverse order exists, and
it lists every vertex once, behind the targets of all its edges but those left out
(`reverseOrder_ok`). The search supplies a list that descends, so that the shape without the
skipped edges has no cycle, and with it peeling reaches every vertex.
-/

set_option autoImplicit false

namespace TxnPath

/-- What is left out is decided on the edges that exist. -/
theorem Digraph.without_congr {d : Digraph} {skipped skipped' : List Nat}
    (h : ∀ a ∈ d.arcs, a.id ∈ skipped ↔ a.id ∈ skipped') :
    d.without skipped = d.without skipped' := by
  have hfilter : d.arcs.filter (fun a => !skipped.contains a.id)
      = d.arcs.filter fun a => !skipped'.contains a.id := by
    refine List.filter_congr fun a ha => ?_
    rw [Bool.eq_iff_iff]
    simp [h a ha]
  rw [without, without, hfilter]

/-- Whatever follows in a descending list descends. -/
theorem Digraph.Descends.of_append {d : Digraph} {above l : List Nat}
    (h : d.Descends (above ++ l)) : d.Descends l := by
  induction above with
  | nil => exact h
  | cons v above ih => exact ih h.2

/-- No edge leads out of a descending list. -/
theorem Digraph.Descends.closed {d : Digraph} {l : List Nat} (h : d.Descends l) {a : Arc}
    (ha : a ∈ d.arcs) (hsource : a.source ∈ l) : a.target ∈ l := by
  induction l with
  | nil => cases hsource
  | cons v rest ih =>
    rcases List.mem_cons.mp hsource with hv | hrest
    · exact List.mem_cons_of_mem _ (h.1 a ha hv)
    · exact List.mem_cons_of_mem _ (ih h.2 hrest)

/-- In a descending list, what holds of a vertex once it holds of all its edges' targets
holds everywhere. -/
theorem Digraph.Descends.induction {d : Digraph} {l : List Nat} {P : Nat → Prop}
    (h : d.Descends l)
    (step : ∀ v ∈ l, (∀ a ∈ d.arcs, a.source = v → P a.target) → P v) : ∀ v ∈ l, P v := by
  induction l with
  | nil => exact nofun
  | cons u rest ih =>
    have hrest : ∀ v ∈ rest, P v := ih h.2 fun v hv => step v (List.mem_cons_of_mem _ hv)
    rw [List.forall_mem_cons]
    exact ⟨step u List.mem_cons_self fun a ha hsource => hrest _ (h.1 a ha hsource), hrest⟩

namespace Graph

variable {R : Type} {g : Graph R} {s : Sentinels}

/-- The edges of the shape are those of the graph, by number. -/
theorem mem_shape_arcs {a : Arc} :
    a ∈ g.shape.arcs
      ↔ ∃ e, g.edges[a.id]? = some e ∧ a.source = e.source ∧ a.target = e.target := by
  obtain ⟨i, source, target⟩ := a
  simp only [shape, List.mem_map, Prod.exists, List.mem_zipIdx_iff_getElem?, Array.getElem?_toList]
  constructor
  · rintro ⟨e, j, he, heq⟩
    cases heq
    exact ⟨e, he, rfl, rfl⟩
  · rintro ⟨e, he, rfl, rfl⟩
    exact ⟨e, i, he, rfl⟩

/-- The edges that the search skips are the back edges. -/
theorem without_backEdges :
    g.shape.without (Search.complete g.shape g.searchRoots).skipped
      = g.shape.without g.backEdges := by
  refine Digraph.without_congr fun a ha => ?_
  obtain ⟨e, he, _, _⟩ := mem_shape_arcs.mp ha
  obtain ⟨hlt, _⟩ := Array.getElem?_eq_some_iff.mp he
  simp [backEdges, hlt]

/-- The search begins at START, and then at every vertex in turn, so that none is missed. -/
theorem Initialized.mem_searchRoots (h : g.Initialized s) {v : Nat} :
    v ∈ g.searchRoots ↔ v < g.vertices.size := by
  rw [searchRoots, h.placed]
  simp only [Option.map_some, Option.toList_some, List.singleton_append, List.mem_cons,
    List.mem_range]
  exact ⟨fun hv => hv.elim (fun heq => heq ▸ lt_size h.start) id, .inr⟩

/-- Edges lead from vertex to vertex. -/
theorem Initialized.shape_arcs (h : g.Initialized s) {a : Arc} (ha : a ∈ g.shape.arcs) :
    a.source < g.vertices.size ∧ a.target < g.vertices.size := by
  obtain ⟨e, he, hsource, htarget⟩ := mem_shape_arcs.mp ha
  rw [hsource, htarget]
  exact h.edges e (Array.mem_of_getElem? he)

/-- The search ends, and what it finished descends along the edges that it did not skip. -/
theorem Initialized.search_ok (h : g.Initialized s) :
    (Search.complete g.shape g.searchRoots).Ended
      ∧ ∃ vs, (g.shape.without g.backEdges).Descends vs ∧ ∀ v < g.vertices.size, v ∈ vs := by
  obtain ⟨hended, hdescends, hall⟩ :=
    Search.complete_descends (fun a ha => (h.shape_arcs ha).2)
      (fun v hv => h.mem_searchRoots.mp hv) fun v hv => h.mem_searchRoots.mpr hv
  rw [without_backEdges] at hdescends
  exact ⟨hended, _, hdescends, hall⟩

/-- The search ends, and so does the peeling that follows. It lists every vertex once, behind the
targets of its edges that are not left out. -/
theorem Initialized.peeling_ok (h : g.Initialized s)
    (hends : ∀ e ∈ g.edges, e.source ≠ s.commit ∧ e.source ≠ s.abort) :
    (Search.complete g.shape g.searchRoots).Ended
      ∧ ∃ f, Frontier.complete (g.shape.without g.backEdges) g.sinks = .ok f ∧ f.ready = []
        ∧ f.order.Nodup ∧ (∀ v, v ∈ f.order ↔ v < g.vertices.size)
        ∧ (g.shape.without g.backEdges).Descends f.order.reverse := by
  obtain ⟨hended, vs, hdescends, hall⟩ := h.search_ok
  have harcs : ∀ a ∈ (g.shape.without g.backEdges).arcs, a ∈ g.shape.arcs :=
    fun a ha => (Digraph.mem_without.mp ha).1
  have hnodup : [s.commit, s.abort].Nodup := by simpa using h.commit_ne_abort
  -- The sinks are listed first, without a look at their edges.
  have hsinks : ∀ v ∈ [s.commit, s.abort], v < g.vertices.size
      ∧ ∀ a ∈ (g.shape.without g.backEdges).arcs, a.source ≠ v := by
    have hleaves : ∀ a ∈ g.shape.arcs, a.source ≠ s.commit ∧ a.source ≠ s.abort := by
      intro a ha
      obtain ⟨e, he, hsource, _⟩ := mem_shape_arcs.mp ha
      rw [hsource]
      exact hends e (Array.mem_of_getElem? he)
    rw [List.forall_mem_cons, List.forall_mem_singleton]
    exact ⟨⟨lt_size h.commit, fun a ha => (hleaves a (harcs a ha)).1⟩,
      ⟨lt_size h.abort, fun a ha => (hleaves a (harcs a ha)).2⟩⟩
  obtain ⟨f, hrun, hready, horder, honce, hmem⟩ := Frontier.complete_ok
    (fun a ha => (h.shape_arcs (harcs a ha)).1) (fun a ha => (h.shape_arcs (harcs a ha)).2)
    hnodup hsinks hdescends hall
  rw [show g.sinks = [s.commit, s.abort] by rw [sinks, h.placed]]
  exact ⟨hended, f, hrun, hready, honce, hmem, horder⟩

/-- The reverse order exists and lists every vertex once, behind the targets of its edges that
are not left out. -/
theorem Initialized.reverseOrder_ok (h : g.Initialized s)
    (hends : ∀ e ∈ g.edges, e.source ≠ s.commit ∧ e.source ≠ s.abort) :
    ∃ order, g.reverseOrder = .ok ⟨order, g.backEdges⟩ ∧ order.Nodup
      ∧ (∀ v, v ∈ order ↔ v < g.vertices.size)
      ∧ (g.shape.without g.backEdges).Descends order.reverse := by
  obtain ⟨_, f, hrun, _, honce, hmem, horder⟩ := h.peeling_ok hends
  refine ⟨f.order, ?_, honce, hmem, horder⟩
  rw [reverseOrder, hrun]

end Graph

end TxnPath
