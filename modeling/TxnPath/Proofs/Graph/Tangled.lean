import TxnPath.Proofs.Graph.Peeling
import TxnPath.Proofs.Graph.Recorded

/-!
# `TxnPath.Proofs.Graph.Tangled`: when probabilities cannot be derived

Deriving probabilities needs an order in which vertices come behind their successors. COMMIT and
ABORT are listed first, on the trust that no edge leaves them. `Initialized.derive_error_iff` says
what that trust amounts to: on an initialized graph, deriving stops if and only if edges that are
not back edges both enter and leave COMMIT or ABORT (`Graph.Tangled`). Otherwise it gives a graph
that differs in nothing but the derived values.

Edges that leave COMMIT and ABORT do no harm where none enters: the vertex may be settled twice,
each time without a look at its successors.
-/

set_option autoImplicit false

namespace TxnPath

namespace Graph

variable {R : Type} {g g' : Graph R} {s : Sentinels}

/-- Edges that are not back edges both enter and leave a sentinel that paths end at. -/
def Tangled (g : Graph R) : Prop := ∃ v ∈ g.sinks, (g.shape.without g.backEdges).Inner v

instance (g : Graph R) : Decidable g.Tangled :=
  inferInstanceAs (Decidable (∃ v ∈ g.sinks, (g.shape.without g.backEdges).Inner v))

/-- Back edges are a matter of the shape and of where START is. -/
theorem backEdges_congr (hshape : g'.shape = g.shape) (hsentinels : g'.sentinels = g.sentinels) :
    g'.backEdges = g.backEdges := by
  have hsize : g'.vertices.size = g.vertices.size := congrArg Digraph.size hshape
  have hedges : g'.edges.size = g.edges.size := by
    simpa [shape] using congrArg (fun d : Digraph => d.arcs.length) hshape
  rw [backEdges, backEdges, searchRoots, searchRoots, hshape, hsentinels, hsize, hedges]

/-- Whether a graph is tangled depends on where its edges lead and where its sentinels are. -/
theorem tangled_congr (hshape : g'.shape = g.shape) (hsentinels : g'.sentinels = g.sentinels) :
    g'.Tangled ↔ g.Tangled := by
  rw [Tangled, Tangled, sinks, sinks, backEdges_congr hshape hsentinels, hshape, hsentinels]

/-- COMMIT and ABORT are listed first. -/
theorem Initialized.sinks_eq (h : g.Initialized s) : g.sinks = [s.commit, s.abort] := by
  rw [sinks, h.placed]

/-- The sinks are the vertices at which paths end. -/
theorem Initialized.mem_sinks (h : g.Initialized s) {v : Nat} :
    v ∈ g.sinks ↔ g.isTerminal v = true := by
  rw [h.sinks_eq, isTerminal_iff h, List.mem_pair]

/-! ### Settling in an order that may list sinks twice -/

section Settle

variable [Scalar R] {g₀ : Graph R} {skipped settled : List Nat}

/-- A graph in which the tables of the settled vertices say everything. -/
structure Readable (g₀ : Graph R) (settled : List Nat) (g : Graph R) : Prop where
  same : SameButTables g₀ g
  known : ∀ v ∈ settled, (g.table v).Known g.partitions

/-- A vertex can be settled that is a sink, or whose successors are settled. A sink does not look at
its edges, so that it may have been listed before what they lead to. -/
theorem Readable.settle {v : Nat} (h : Readable g₀ settled g) (hinit : g₀.Initialized s)
    (hv : v < g₀.vertices.size)
    (htargets : ∀ a ∈ ((g₀.shape.without skipped).endingAt g₀.sinks).arcs,
      a.source = v → a.target ∈ settled) :
    ∃ g', g.settle skipped settled v = .ok g' ∧ Readable g₀ (v :: settled) g' := by
  have hlt : v < g.vertices.size := h.same.size ▸ hv
  obtain ⟨x, hx⟩ : ∃ x, g.vertices[v]? = some x := ⟨_, Array.getElem?_eq_getElem hlt⟩
  -- Whatever the table of the vertex is made of, it says everything.
  have hset : ∀ succs, Readable g₀ (v :: settled) { g with
      vertices := g.vertices.setIfInBounds v
        { x with probs := x.tableFrom g.base g.partitions succs } } := by
    intro succs
    refine ⟨h.same.set hx _, fun u hu => ?_⟩
    by_cases huv : v = u
    · subst huv
      rw [table_eq (x := { x with probs := x.tableFrom g.base g.partitions succs })
        (by rw [Array.getElem?_setIfInBounds, if_pos rfl, if_pos hlt])]
      exact known_tableFrom ..
    · rw [table_set_ne huv]
      exact h.known u ((List.mem_cons.mp hu).resolve_left (Ne.symm huv))
  rw [Graph.settle, hx]
  dsimp only
  split
  case isTrue => exact ⟨_, rfl, hset []⟩
  -- The edges of a vertex that is no sink are all edges of the shape that ends at the sinks.
  case isFalse hinner =>
    have hsink : v ∉ g₀.sinks := by
      rw [hinit.mem_sinks, isTerminal_eq, ← h.same.kind?, kind?, hx]
      exact hinner
    have hreadable : ∀ e i, (e, i) ∈ g.kept skipped v →
        e.target ∈ settled ∧ (g.table e.target).Known g.partitions := by
      intro e i he
      have harc := h.same.shape ▸ arc_of_kept he
      have hsettled := htargets _ (Digraph.mem_endingAt.mpr ⟨harc, hsink⟩) rfl
      exact ⟨hsettled, h.known _ hsettled⟩
    rw [successors_ok hreadable]
    exact ⟨_, rfl, hset _⟩

/-- Vertices can be settled one after the other if all but sinks come behind their successors. A
sink may come too early, because its successors are not asked for. -/
theorem Readable.settleAll (rest : List Nat) (h : Readable g₀ settled g) (hinit : g₀.Initialized s)
    (hdescends : ((g₀.shape.without skipped).endingAt g₀.sinks).Descends (rest.reverse ++ settled))
    (hbounds : ∀ v ∈ rest, v < g₀.vertices.size) :
    ∃ g', settleAll skipped g settled rest = .ok g' ∧ SameButTables g₀ g' := by
  induction rest generalizing settled g with
  | nil => exact ⟨g, rfl, h.same⟩
  | cons v rest ih =>
    rw [List.reverse_cons, List.append_assoc] at hdescends
    obtain ⟨hv, hrest⟩ := List.forall_mem_cons.mp hbounds
    obtain ⟨g₁, hsettle, hreadable⟩ := h.settle hinit hv hdescends.of_append.1
    obtain ⟨g₂, hall, hsame⟩ := ih hreadable hdescends hrest
    refine ⟨g₂, ?_, hsame⟩
    rw [Graph.settleAll, hsettle]
    exact hall

end Settle

/-! ### Deriving -/

/-- The edges that are not skipped lead from vertex to vertex. -/
theorem Initialized.kept_arcs (h : g.Initialized s) {a : Arc}
    (ha : a ∈ (g.shape.without g.backEdges).arcs) :
    a.source < g.vertices.size ∧ a.target < g.vertices.size :=
  h.shape_arcs (Digraph.mem_without.mp ha).1

/-- COMMIT and ABORT are vertices of the graph. -/
theorem Initialized.sinks_lt (h : g.Initialized s) : ∀ v ∈ g.sinks, v < g.vertices.size := by
  rw [h.sinks_eq, List.forall_mem_cons, List.forall_mem_singleton]
  exact ⟨lt_size h.commit, lt_size h.abort⟩

/-- And they are two. -/
theorem Initialized.nodup_sinks (h : g.Initialized s) : g.sinks.Nodup := by
  rw [h.sinks_eq]
  simpa using h.commit_ne_abort

variable [Scalar R]

/-- On a tangled graph peeling stops, and deriving with it. -/
theorem Initialized.derive_error (h : g.Initialized s) (htangled : g.Tangled) :
    ∃ f, g.derive = .error f := by
  obtain ⟨v, hv, hinner⟩ := htangled
  obtain ⟨_, vs, hdescends, hall⟩ := h.search_ok
  obtain ⟨f, hpeeling⟩ := Frontier.complete_error (fun a ha => (h.kept_arcs ha).1)
    (fun a ha => (h.kept_arcs ha).2) h.sinks_lt hdescends hall hv hinner
  exact ⟨f, by rw [derive, reverseOrder, hpeeling]⟩

/-- Probabilities can be derived unless the graph is tangled, and nothing else changes. -/
theorem Initialized.derive_total (h : g.Initialized s) (hclear : ¬ g.Tangled) :
    ∃ g', g.derive = .ok g' ∧ SameButTables g.unsetTables.weighEdges g' := by
  obtain ⟨_, vs, hdescends, hall⟩ := h.search_ok
  obtain ⟨f, hpeeling, horder, hmem⟩ := Frontier.complete_total (fun a ha => (h.kept_arcs ha).1)
    (fun a ha => (h.kept_arcs ha).2) h.nodup_sinks h.sinks_lt hdescends hall
    fun v hv hinner => hclear ⟨v, hv, hinner⟩
  have hstart : Readable g.unsetTables.weighEdges [] g.unsetTables.weighEdges := ⟨.refl _, nofun⟩
  have hsize : g.unsetTables.weighEdges.vertices.size = g.vertices.size := Array.size_map
  rw [← shape_weighEdges, ← List.append_nil f.order.reverse] at horder
  obtain ⟨g', hsettle, hsame⟩ := hstart.settleAll f.order h.unsetTables.weighEdges horder
    fun v hv => hsize ▸ (hmem v).mp hv
  exact ⟨g', by rw [derive, reverseOrder, hpeeling]; exact hsettle, hsame⟩

/-- If probabilities were derived, the graph is not tangled, and nothing else has changed. -/
theorem Initialized.derive_same (h : g.Initialized s) (hrun : g.derive = .ok g') :
    ¬ g.Tangled ∧ SameButTables g.unsetTables.weighEdges g' := by
  have hclear : ¬ g.Tangled := fun htangled => by
    obtain ⟨f, hstop⟩ := h.derive_error htangled
    cases hrun.symm.trans hstop
  obtain ⟨g₁, hrun', hsame⟩ := h.derive_total hclear
  obtain rfl := Except.ok.inj (hrun.symm.trans hrun')
  exact ⟨hclear, hsame⟩

/-- Deriving stops exactly on tangled graphs. -/
theorem Initialized.derive_error_iff (h : g.Initialized s) :
    (∃ f, g.derive = .error f) ↔ g.Tangled := by
  refine ⟨fun ⟨f, hrun⟩ => Decidable.byContradiction fun hclear => ?_, h.derive_error⟩
  obtain ⟨g', hrun', _⟩ := h.derive_total hclear
  cases hrun.symm.trans hrun'

end Graph

end TxnPath
