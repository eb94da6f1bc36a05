import TxnPath.Proofs.Graph.Order
import TxnPath.Proofs.Outcome

/-!
# `TxnPath.Proofs.Graph.Derive`: tables agree with their successors'

Deriving settles one vertex after the other, each from the tables of its successors. As the
order puts every vertex behind its successors, no table that was read changes afterwards.
`Graph.LocallySettled` states what remains at the end, an equation at every vertex between
its table and those of its successors, and `Initialized.derive_ok` says that deriving never
stops and reaches it. The equation does not mention the order any more.
-/

set_option autoImplicit false

namespace TxnPath

variable {R : Type}

/-! ### Tables that say everything
-/

namespace ProbabilityTable

variable {t : ProbabilityTable R} {n : Nat}

/-- Every entry about the first `n` partitions is set. -/
structure Known (t : ProbabilityTable R) (n : Nat) : Prop where
  single : t.single.isSome
  abort : t.abort.isSome
  entry : ∀ field, ∀ p < n, (t.get? field p).isSome

/-- What a complete table answers at a partition is the outlook for this partition. -/
theorem get?_complete (single abort : R) (outlook : Nat → PartitionOutlook R) {p : Nat}
    (hp : p < n) :
    (complete single abort n outlook).get? .done p = some (outlook p).done
      ∧ (complete single abort n outlook).get? .readOnly p = some (outlook p).readOnly
      ∧ (complete single abort n outlook).get? .write p = some (outlook p).write := by
  simp [get?, column, complete, hp]

/-- Every entry of a complete table is set. -/
theorem known_complete (single abort : R) (outlook : Nat → PartitionOutlook R) :
    (complete single abort n outlook).Known n where
  single := rfl
  abort := rfl
  entry := fun field p hp => by
    obtain ⟨hdone, hreadOnly, hwrite⟩ := get?_complete single abort outlook hp
    cases field with
    | done => exact hdone ▸ rfl
    | readOnly => exact hreadOnly ▸ rfl
    | write => exact hwrite ▸ rfl

variable [Scalar R]

/-- What a table says about a partition; nothing is read as zero. -/
def outlook (t : ProbabilityTable R) (p : Nat) : PartitionOutlook R :=
  ⟨(t.get? .done p).getD 0, (t.get? .readOnly p).getD 0, (t.get? .write p).getD 0⟩

/-- An entry that is set can be read. -/
theorem requireProbability_ok {x : Option R} (h : x.isSome) (field : String) (successor : Nat) :
    requireProbability x field successor = .ok (x.getD 0) := by
  cases x with
  | none => cases h
  | some x => rfl

/-- So all outlooks of a known table can be read. -/
theorem Known.outlooks (h : t.Known n) (successor : Nat) :
    t.outlooks n successor = .ok ((List.range n).map t.outlook) := by
  refine Outcome.mapM_eq_ok fun p hp => ?_
  have hp := List.mem_range.mp hp
  rw [requireProbability_ok (h.entry .readOnly p hp), requireProbability_ok (h.entry .write p hp),
    requireProbability_ok (h.entry .done p hp)]
  rfl

end ProbabilityTable

namespace Graph

variable {g g₀ : Graph R} {skipped settled : List Nat}

/-- The table of a vertex that is there. -/
theorem table_eq {v : Nat} {x : Vertex R} (h : g.vertices[v]? = some x) : g.table v = x.probs := by
  rw [table, h]

/-- Setting one vertex leaves the tables of the others. -/
theorem table_set_ne {u v : Nat} {x : Vertex R} (h : v ≠ u) :
    table { g with vertices := g.vertices.setIfInBounds v x } u = g.table u := by
  simp only [table, Array.getElem?_setIfInBounds_ne h]

/-! ### What deriving leaves alone
-/

/-- A graph in which the tables of vertices may have been set, and nothing else changed. Deriving
leads through such graphs only, one vertex after the other. -/
structure SameButTables (g₀ g : Graph R) : Prop where
  frame : g = { g₀ with vertices := g.vertices }
  size : g.vertices.size = g₀.vertices.size
  vertex : ∀ (v : Nat) (x : Vertex R), g₀.vertices[v]? = some x →
    ∃ t, g.vertices[v]? = some { x with probs := t }

/-- A graph differs from itself in no table. -/
theorem SameButTables.refl (g : Graph R) : SameButTables g g :=
  ⟨rfl, rfl, fun _ x hx => ⟨x.probs, hx⟩⟩

/-- Settling vertices does not touch the edges. -/
theorem SameButTables.edges (h : SameButTables g₀ g) : g.edges = g₀.edges := by
  rw [h.frame]

/-- Nor does it change where edges lead. -/
theorem SameButTables.shape (h : SameButTables g₀ g) : g.shape = g₀.shape := by
  rw [Graph.shape, Graph.shape, h.size, h.edges]

/-- Nor what vertices stand for. -/
theorem SameButTables.kind? (h : SameButTables g₀ g) (v : Nat) : g.kind? v = g₀.kind? v := by
  cases hx : g₀.vertices[v]? with
  | some x =>
    obtain ⟨t, ht⟩ := h.vertex v x hx
    rw [Graph.kind?, Graph.kind?, ht, hx]
    rfl
  | none =>
    have hout : g.vertices[v]? = none := by
      rw [Array.getElem?_eq_none_iff, h.size]
      exact Array.getElem?_eq_none_iff.mp hx
    rw [Graph.kind?, Graph.kind?, hout, hx]

/-- So a graph stays initialized while its vertices are settled. -/
theorem Initialized.of_sameButTables {s : Sentinels} (h : g₀.Initialized s)
    (hsame : SameButTables g₀ g) : g.Initialized s :=
  h.of_kinds (by rw [hsame.frame]) hsame.kind? (hsame.edges ▸ h.edges)

/-- Setting the table of a vertex changes nothing else. The vertex is one of the graph as it is now,
which may have another table than in the beginning. -/
theorem SameButTables.set (h : SameButTables g₀ g) {v : Nat} {x : Vertex R}
    (hx : g.vertices[v]? = some x) (t : ProbabilityTable R) :
    SameButTables g₀ { g with vertices := g.vertices.setIfInBounds v { x with probs := t } } where
  frame := by rw [h.frame]
  size := by rw [Array.size_setIfInBounds, h.size]
  vertex := fun u y hy => by
    obtain ⟨t', ht'⟩ := h.vertex u y hy
    dsimp only
    rw [Array.getElem?_setIfInBounds]
    by_cases huv : v = u
    · subst huv
      rw [if_pos rfl, if_pos (Array.getElem?_eq_some_iff.mp hx).1]
      obtain rfl := Option.some.inj (hx.symm.trans ht')
      exact ⟨t, rfl⟩
    · rw [if_neg huv]
      exact ⟨t', ht'⟩

/-! ### The equation at a vertex
-/

/-- Some entries of a list, each with its position, come by ascending position. -/
theorem pairwise_positions {α : Type} (entries : List α) (p : α × Nat → Bool) :
    (entries.zipIdx.filter p).Pairwise fun a b => a.2 < b.2 := by
  have hall : (entries.zipIdx.map Prod.snd).Pairwise (· < ·) := by
    rw [List.zipIdx_map_snd]
    exact List.pairwise_lt_range'
  exact (List.pairwise_map.mp hall).sublist List.filter_sublist

/-- The edges that leave a vertex are listed by ascending number, which is the order in which they
were created. -/
theorem pairwise_outgoing (g : Graph R) (v : Nat) :
    (g.outgoing v).Pairwise fun a b => a.2 < b.2 :=
  pairwise_positions _ _

/-- So are those that enter it. -/
theorem pairwise_incoming (g : Graph R) (v : Nat) :
    (g.incoming v).Pairwise fun a b => a.2 < b.2 :=
  pairwise_positions _ _

/-- The edges that leave a vertex and are not skipped. -/
def kept (g : Graph R) (skipped : List Nat) (v : Nat) : List (Edge R × Nat) :=
  (g.outgoing v).filter fun e => !skipped.contains e.2

/-- The edges that count at a vertex are those that leave it and are not skipped. -/
theorem mem_kept {v i : Nat} {e : Edge R} :
    (e, i) ∈ g.kept skipped v ↔ g.edges[i]? = some e ∧ e.source = v ∧ i ∉ skipped := by
  simp [kept, outgoing, List.mem_zipIdx_iff_getElem?, and_comm]

/-- The edges that are not skipped are those of the shape without the others. -/
theorem arc_of_kept {v i : Nat} {e : Edge R} (h : (e, i) ∈ g.kept skipped v) :
    ⟨i, v, e.target⟩ ∈ (g.shape.without skipped).arcs := by
  obtain ⟨he, hsource, hkept⟩ := mem_kept.mp h
  exact Digraph.mem_without.mpr ⟨mem_shape_arcs.mpr ⟨e, he, hsource.symm, rfl⟩, hkept⟩

variable [Scalar R]

/-- The end of an edge as a successor, read from its table. -/
def successor (g : Graph R) (e : Edge R) : Successor R where
  weight := e.probability
  single := (g.table e.target).single.getD 0
  abort := (g.table e.target).abort.getD 0
  partitions := ((List.range g.partitions).map (g.table e.target).outlook).toArray

/-- The successors of a vertex, read from their tables. -/
def keptSuccessors (g : Graph R) (skipped : List Nat) (v : Nat) : List (Successor R) :=
  (g.kept skipped v).map fun e => g.successor e.1

/-- The table of a vertex is the one that follows from the tables of its successors. -/
def LocallySettled (g : Graph R) (skipped : List Nat) (v : Nat) : Prop :=
  ∀ x, g.vertices[v]? = some x →
    x.probs = x.tableFrom g.base g.partitions (g.keptSuccessors skipped v)

/-- Whatever follows a vertex, its table says everything. -/
theorem known_tableFrom (x : Vertex R) (base n : Nat) (succs : List (Successor R)) :
    (x.tableFrom base n succs).Known n := by
  rw [Vertex.tableFrom]
  split <;> exact ProbabilityTable.known_complete _ _ _

/-- What follows a vertex at which paths end does not matter. -/
theorem tableFrom_terminal {x : Vertex R} (h : x.kind.isTerminal = true) (base n : Nat)
    (succs succs' : List (Successor R)) : x.tableFrom base n succs = x.tableFrom base n succs' := by
  rw [Vertex.tableFrom, Vertex.tableFrom]
  cases hkind : x.kind with
  | start => rw [hkind] at h; cases h
  | commit => rfl
  | abort => rfl
  | query c => rw [hkind] at h; cases h

/-- A table that was set as its vertex requires says everything. -/
theorem LocallySettled.known {v : Nat} (h : g.LocallySettled skipped v)
    (hv : v < g.vertices.size) : (g.table v).Known g.partitions := by
  have hx := Array.getElem?_eq_getElem hv
  rw [table_eq hx, h _ hx]
  exact known_tableFrom ..

/-- What is read from the successors is what their tables say. -/
theorem keptSuccessors_congr {g' : Graph R} {v : Nat}
    (hframe : g' = { g with vertices := g'.vertices })
    (htables : ∀ e i, (e, i) ∈ g.kept skipped v → g'.table e.target = g.table e.target) :
    g'.keptSuccessors skipped v = g.keptSuccessors skipped v := by
  have hkept : g'.kept skipped v = g.kept skipped v := by
    rw [kept, kept, outgoing, outgoing, hframe]
  rw [keptSuccessors, keptSuccessors, hkept]
  refine List.map_congr_left fun (e, i) he => ?_
  rw [successor, successor, htables e i he, hframe]

/-! ### One vertex after the other
-/

/-- The successors can be read once all of them are settled and say everything. -/
theorem successors_ok {v : Nat}
    (h : ∀ e i, (e, i) ∈ g.kept skipped v →
      e.target ∈ settled ∧ (g.table e.target).Known g.partitions) :
    g.successors skipped settled v = .ok (g.keptSuccessors skipped v) := by
  refine Outcome.mapM_eq_ok fun (e, i) he => ?_
  obtain ⟨hsettled, hknown⟩ := h e i he
  simp only [hsettled, not_true_eq_false, if_false]
  rw [ProbabilityTable.requireProbability_ok hknown.single,
    ProbabilityTable.requireProbability_ok hknown.abort, hknown.outlooks]
  rfl

/-- A vertex is settled by giving it the table that follows from its successors'. -/
theorem settle_ok {v : Nat} {x : Vertex R} (hx : g.vertices[v]? = some x)
    (h : ∀ e i, (e, i) ∈ g.kept skipped v →
      e.target ∈ settled ∧ (g.table e.target).Known g.partitions) :
    g.settle skipped settled v = .ok { g with
      vertices := g.vertices.setIfInBounds v { x with
        probs := x.tableFrom g.base g.partitions (g.keptSuccessors skipped v) } } := by
  rw [settle, hx]
  dsimp only
  split
  case isTrue hterminal => rw [tableFrom_terminal hterminal _ _ []]
  case isFalse => rw [successors_ok h]

/-- The invariant of deriving: the equation holds at the settled vertices. -/
structure Settled (g₀ : Graph R) (skipped settled : List Nat) (g : Graph R) : Prop where
  same : SameButTables g₀ g
  equations : ∀ v ∈ settled, g.LocallySettled skipped v

/-- A vertex whose successors are settled can be settled, and the others stay settled: none of them
leads to the vertex, since each is further down the list than what leads to it, and so none of the
tables they were settled from changes. -/
theorem Settled.settle {v : Nat} (h : Settled g₀ skipped settled g)
    (hdescends : (g₀.shape.without skipped).Descends (v :: settled)) (hnew : v ∉ settled)
    (hbounds : ∀ u ∈ v :: settled, u < g₀.vertices.size) :
    ∃ g', g.settle skipped settled v = .ok g' ∧ Settled g₀ skipped (v :: settled) g' := by
  have hlt : ∀ u ∈ v :: settled, u < g.vertices.size := fun u hu => h.same.size ▸ hbounds u hu
  have htarget : ∀ u ∈ v :: settled, ∀ e i, (e, i) ∈ g.kept skipped u → e.target ∈ settled := by
    intro u hu e i he
    have harc := h.same.shape ▸ arc_of_kept he
    rcases List.mem_cons.mp hu with rfl | hu
    · exact hdescends.1 _ harc rfl
    · exact hdescends.2.closed harc hu
  have hx := Array.getElem?_eq_getElem (hlt v List.mem_cons_self)
  have hreadable : ∀ e i, (e, i) ∈ g.kept skipped v →
      e.target ∈ settled ∧ (g.table e.target).Known g.partitions := by
    intro e i he
    have hsettled := htarget v List.mem_cons_self e i he
    exact ⟨hsettled, (h.equations _ hsettled).known (hlt _ (List.mem_cons_of_mem _ hsettled))⟩
  refine ⟨_, settle_ok hx hreadable, h.same.set hx _, fun u hu y hy => ?_⟩
  -- The tables that the equation at `u` reads are settled, and that of `v` was not.
  have hreads : ∀ e i, (e, i) ∈ g.kept skipped u → v ≠ e.target := fun e i he heq =>
    hnew (heq ▸ htarget u hu e i he)
  have hsuccs : ∀ z : Vertex R,
      keptSuccessors { g with vertices := g.vertices.setIfInBounds v z } skipped u
        = g.keptSuccessors skipped u := fun z =>
    keptSuccessors_congr rfl fun e i he => table_set_ne (hreads e i he)
  rw [hsuccs]
  rw [Array.getElem?_setIfInBounds] at hy
  by_cases huv : v = u
  · subst huv
    rw [if_pos rfl, if_pos (hlt v List.mem_cons_self)] at hy
    cases hy
    rfl
  · rw [if_neg huv] at hy
    exact h.equations u ((List.mem_cons.mp hu).resolve_left (Ne.symm huv)) y hy

/-- Vertices can be settled in any order in which each comes behind its successors. It is an
induction on the vertices that are left: settling one of them makes it one of those that the next
may rely on. -/
theorem Settled.settleAll (rest : List Nat) (h : Settled g₀ skipped settled g)
    (hdescends : (g₀.shape.without skipped).Descends (rest.reverse ++ settled))
    (hnodup : (rest ++ settled).Nodup) (hbounds : ∀ u ∈ rest ++ settled, u < g₀.vertices.size) :
    ∃ g', settleAll skipped g settled rest = .ok g'
      ∧ Settled g₀ skipped (rest.reverse ++ settled) g' := by
  induction rest generalizing settled g with
  | nil => exact ⟨g, rfl, h⟩
  | cons v rest ih =>
    rw [List.reverse_cons, List.append_assoc] at hdescends ⊢
    -- The settled vertices, the latest first, are the end of the descending list.
    have hperm : (v :: rest ++ settled).Perm (rest ++ v :: settled) := List.perm_middle.symm
    obtain ⟨g₁, hsettle, hsettled⟩ := h.settle hdescends.of_append
      (fun hv => (List.nodup_cons.mp hnodup).1 (List.mem_append_right _ hv))
      fun u hu => hbounds u (hperm.mem_iff.mpr (List.mem_append_right _ hu))
    obtain ⟨g₂, hrest, hall⟩ := ih hsettled hdescends (hperm.nodup_iff.mp hnodup)
      fun u hu => hbounds u (hperm.mem_iff.mpr hu)
    refine ⟨g₂, ?_, hall⟩
    rw [Graph.settleAll, hsettle]
    exact hrest

/-- Weighing edges leaves them where they are. -/
theorem shape_weighEdges (g : Graph R) : g.unsetTables.weighEdges.shape = g.shape := by
  simp [shape, weighEdges, unsetTables, List.zipIdx_map, Function.comp_def]

/-- On an initialized graph whose COMMIT and ABORT no edge leaves, deriving gives a graph: the
totals weigh the edges, the tables agree with their successors', and all else is as it was. -/
theorem Initialized.derive_ok {s : Sentinels} (h : g.Initialized s)
    (hends : ∀ e ∈ g.edges, e.source ≠ s.commit ∧ e.source ≠ s.abort) :
    ∃ r g', g.reverseOrder = .ok r ∧ g.derive = .ok g'
      ∧ SameButTables g.unsetTables.weighEdges g'
      ∧ (∀ v < g.vertices.size, g'.LocallySettled r.skipped v)
      ∧ (g'.shape.without r.skipped).Descends r.order.reverse
      ∧ ∀ v, v ∈ r.order.reverse ↔ v < g.vertices.size := by
  obtain ⟨order, horder, hnodup, hmem, hdescends⟩ := h.reverseOrder_ok hends
  have hsize : g.unsetTables.weighEdges.vertices.size = g.vertices.size := Array.size_map
  -- At the start nothing is settled, and only tables were unset and edges weighed.
  have hinit : Settled g.unsetTables.weighEdges g.backEdges [] g.unsetTables.weighEdges :=
    ⟨SameButTables.refl _, nofun⟩
  obtain ⟨g', hall, hsettled⟩ := hinit.settleAll order
    (by rwa [List.append_nil, shape_weighEdges]) (by rwa [List.append_nil])
    (fun u hu => by rwa [List.append_nil, hmem, ← hsize] at hu)
  rw [List.append_nil] at hsettled
  refine ⟨_, g', horder, ?_, hsettled.same, fun v hv => ?_, ?_, ?_⟩
  · rw [derive, horder]
    exact hall
  · exact hsettled.equations v (List.mem_reverse.mpr ((hmem v).mpr hv))
  · rwa [hsettled.same.shape, shape_weighEdges]
  · exact fun v => List.mem_reverse.trans (hmem v)

end Graph

end TxnPath
