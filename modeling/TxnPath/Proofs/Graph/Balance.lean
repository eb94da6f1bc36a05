import Mathlib
import TxnPath.Graph.Sanity
import TxnPath.Proofs.Graph.AbortRate
import TxnPath.Proofs.Graph.Edits
import TxnPath.Proofs.Graph.Rederive
import TxnPath.Proofs.Graph.Sealed

/-!
# `TxnPath.Proofs.Graph.Balance`: recomputed graphs are sane

The counters of a vertex and those of its edges are kept apart, and terminal vertices are counted by
a rule of their own. Still they agree: a graph that was fed from a fresh one by any sequence of
operations (`Graph.Fed`), some of which may have broken off, holds the hits of a list of steps, and
no step leaves COMMIT or ABORT (`Fed.counted`). The sequence may contain everything but two things: a
step from COMMIT or ABORT, and forgetting the window, which takes hits away from vertices that keep
their edges.

Recomputing such a graph gives a result in which every other vertex has as many hits as the edges
that leave it have together, and at least one if there is an edge (`Fed.recompute_sane`). In exact
arithmetic its outgoing probabilities sum to exactly one, and there is nothing to report.
-/

set_option autoImplicit false

namespace TxnPath

variable {R : Type}

/-! ### Duplicates -/

/-- No target is met again if none occurs twice or was met before. -/
theorem metAgain_eq_nil {met targets : List Nat} (hnodup : targets.Nodup)
    (hfresh : ∀ v ∈ targets, v ∉ met) : metAgain met targets = [] := by
  induction targets generalizing met with
  | nil => rfl
  | cons v targets ih =>
    obtain ⟨hnew, hnodup⟩ := List.nodup_cons.mp hnodup
    obtain ⟨hv, hfresh⟩ := List.forall_mem_cons.mp hfresh
    rw [metAgain, if_neg hv]
    refine ih hnodup fun u hu => ?_
    rw [List.mem_cons, not_or]
    exact ⟨fun heq => hnew (heq ▸ hu), hfresh u hu⟩

namespace Graph

variable {procedure : ProcedureId} {base partitions : Nat} {s : Sentinels} {v : Nat}
  {steps : List (Nat × Nat)}

section Counters

variable {g g' : Graph R}

/-- The edges that leave a vertex lead to different ones. -/
theorem Tallied.nodup_targets (h : g.Tallied steps) (v : Nat) :
    ((g.leaving v).map Edge.target).Nodup := by
  have hends : ((g.leaving v).map Edge.ends).Nodup :=
    h.distinct.sublist (List.filter_sublist.map _)
  -- Edges from one vertex differ in their ends, so in their targets.
  have hpair : (g.leaving v).map Edge.ends = ((g.leaving v).map Edge.target).map (Prod.mk v) := by
    rw [List.map_map]
    refine List.map_congr_left fun e he => ?_
    rw [Function.comp_apply, Edge.ends, (mem_leaving.mp he).2]
  rw [hpair] at hends
  exact hends.of_map

/-- A vertex that an edge leaves was hit. -/
theorem Tallied.vertexHits_pos (h : g.Tallied steps) {e : Edge R} (he : e ∈ g.edges) :
    0 < g.vertexHits e.source := by
  have hstep : e.ends ∈ steps :=
    (h.covered e.ends).mpr (List.mem_map_of_mem (Array.mem_toList_iff.mpr he))
  have hleft : 0 < steps.countP fun p => p.1 == e.source :=
    List.countP_pos_iff.mpr ⟨e.ends, hstep, beq_self_eq_true e.source⟩
  rw [h.vertex]
  exact Nat.lt_of_lt_of_le hleft (Nat.le_add_right _ _)

/-- Nothing leaves a vertex at which paths end. -/
theorem Sealed.outgoing_eq_nil (h : g.Sealed s) (hterminal : g.isTerminal v = true) :
    g.outgoing v = [] := by
  refine List.eq_nil_iff_forall_not_mem.mpr fun e he => ?_
  obtain ⟨hedge, hsource⟩ := mem_outgoing he
  rw [← hsource, h.ends e.1 hedge] at hterminal
  cases hterminal

/-- With an empty window the hits of a vertex are its totals. -/
theorem Folded.totalHits_vertex [Scalar R] (h : g.Folded) (v : Nat) :
    g.totalHits v = g.vertexHits v := by
  rw [totalHits, vertexHits]
  cases hx : g.vertices[v]? with
  | none => rfl
  | some x =>
    have hwindow := h.vertices x (Array.mem_of_getElem? hx)
    rw [Option.elim_some, Vertex.hits, hwindow, Nat.add_zero]

/-- And those of an edge its totals. -/
theorem Folded.totalHits_edge (h : g.Folded) {e : Edge R} (he : e ∈ g.edges) :
    e.totalHits = e.hits := by
  rw [Edge.hits, h.edges e he, Nat.add_zero]

/-- As many hits leave a vertex as it has, unless paths end there, and it has some if an edge
leaves it. -/
structure Balanced [Scalar R] (g : Graph R) (v : Nat) : Prop where
  outgoing : g.totalHits v = ((g.outgoing v).map fun e => e.1.totalHits).sum
  positive : g.outgoing v ≠ [] → 0 < g.totalHits v

/-- With an empty window the totals are those of a list of steps, so that a vertex was hit as often
as its edges were taken. -/
theorem Folded.balanced [Scalar R] (hfolded : g.Folded) (h : g.Tallied steps)
    (hinner : g.isTerminal v = false) : g.Balanced v where
  outgoing := by
    have hhits : (g.outgoing v).map (fun e => e.1.totalHits) = (g.leaving v).map Edge.hits := by
      rw [← map_fst_outgoing, List.map_map]
      refine List.map_congr_left fun e he => hfolded.totalHits_edge ?_
      exact (mem_outgoing he).1
    rw [hhits, h.sum_leaving hinner, hfolded.totalHits_vertex]
  positive := by
    intro hne
    obtain ⟨e, he⟩ := List.exists_mem_of_ne_nil _ hne
    obtain ⟨hedge, hsource⟩ := mem_outgoing he
    rw [hfolded.totalHits_vertex, ← hsource]
    exact h.vertexHits_pos hedge

end Counters

/-! ### Feeding a graph -/

section Feeding

variable [Scalar R] {g g' : Graph R}

/-- Whether an operation keeps the hits there are, and goes on from where no path ends. -/
def Edit.Onward (g : Graph R) (e : Edit) : Prop :=
  e ≠ .reset ∧ ∀ u, e.source? = some u → g.isTerminal u = false

/-- The graphs to which operations lead from a fresh one. An operation that fails midway leads on as
well, to the graph that it leaves behind. -/
inductive Fed (procedure : ProcedureId) (base partitions : Nat) : Graph R → Prop
  | fresh : Fed procedure base partitions (fresh procedure base partitions)
  | edit {g g' : Graph R} {e : Edit} : Fed procedure base partitions g → e.Onward g →
    e.run g = .ok g' → Fed procedure base partitions g'

/-- Deriving probabilities leaves a graph sealed. -/
theorem Sealed.of_sameButTables (h : g.Sealed s)
    (hsame : SameButTables g.unsetTables.weighEdges g') : g'.Sealed s :=
  h.of_sameHits (h.initialized.unsetTables.weighEdges.of_sameButTables hsame) hsame.sameHits

/-- One operation keeps the hits those of a list of steps, none of which leaves COMMIT or ABORT. It
goes by what an operation can do: record steps, or leave the hits as they are. Forgetting the window
is not onward. -/
theorem Sealed.edit {e : Edit} (h : g.Sealed s) (htallied : g.Tallied steps) (honward : e.Onward g)
    (hrun : e.run g = .ok g') : ∃ steps', g'.Sealed s ∧ g'.Tallied steps' := by
  rcases Edit.run_cases h.initialized hrun with
    ⟨links, hrecording, hsources⟩ | ⟨hreset, _⟩ | hsame | ⟨_, hsame⟩
  -- Only what is recorded adds steps. The other operations move hits, or leave them alone.
  · refine ⟨links ++ steps, h.recording hrecording fun p hp => ?_, hrecording.tallied htallied⟩
    rcases hsources p hp with hsource | hinner
    · exact (hrecording.grows.terminal p.1).trans (honward.2 p.1 hsource)
    · exact hinner
  · exact absurd hreset honward.1
  · exact ⟨steps, h.of_sameButTables hsame, htallied.of_sameHits hsame.sameHits⟩
  · have hfold := sameHits_foldWindow g
    have hsealed := h.of_sameHits h.initialized.foldWindow hfold
    exact ⟨steps, hsealed.of_sameButTables hsame,
      (htallied.of_sameHits hfold).of_sameHits hsame.sameHits⟩

/-- Whatever it was fed with, the graph holds the hits of a list of steps, none of which leaves
COMMIT or ABORT. By induction on what it was fed with; a trace that is rejected midway leaves the
steps that were taken up to there. -/
theorem Fed.counted (h : Fed procedure base partitions g) :
    ∃ steps, g.Sealed ⟨0, 1, 2⟩ ∧ g.Tallied steps := by
  induction h with
  | fresh => exact ⟨[], sealed_fresh .., (recorded_fresh ..).tallied⟩
  | edit _ honward hrun ih =>
    obtain ⟨steps, hsealed, htallied⟩ := ih
    exact hsealed.edit htallied honward hrun

/-- Recomputing gives a result, which holds the same steps and has nothing in the window. -/
theorem Sealed.recompute_folded (h : g.Sealed s) (htallied : g.Tallied steps) :
    ∃ g', g.recompute = .ok g' ∧ SameButTables g.foldWindow.unsetTables.weighEdges g'
      ∧ g'.Sealed s ∧ g'.Tallied steps := by
  obtain ⟨g', hrun, hsealed, _⟩ := h.recompute
  have hsame := (h.initialized.foldWindow.derive_same hrun).2
  exact ⟨g', hrun, hsame, hsealed,
    (htallied.of_sameHits (sameHits_foldWindow g)).of_sameHits hsame.sameHits⟩

end Feeding

/-! ### In exact arithmetic -/

section Exact

variable {g g' : Graph Rat}

/-- The outgoing probabilities of a vertex that an edge leaves sum to one. They are shares of the
hits of the vertex, which is an inner one and so has as many hits as its edges together. -/
theorem Tallied.outgoingMass_eq_one (h : g.Tallied steps)
    (hweight : ∀ e ∈ g.edges, e.probability = e.hits / g.vertexHits e.source)
    (hinner : g.isTerminal v = false) (hne : g.outgoing v ≠ []) : g.outgoingMass v = 1 := by
  have hshares : (g.outgoing v).map (fun e => e.1.probability)
      = (g.leaving v).map fun e => (e.hits : Rat) * (g.vertexHits v : Rat)⁻¹ := by
    rw [← map_fst_outgoing, List.map_map]
    refine List.map_congr_left fun e he => ?_
    obtain ⟨hedge, rfl⟩ := mem_outgoing he
    exact (hweight e.1 hedge).trans (div_eq_mul_inv _ _)
  obtain ⟨e, he⟩ := List.exists_mem_of_ne_nil _ hne
  obtain ⟨hedge, rfl⟩ := mem_outgoing he
  have hhits : (g.vertexHits e.1.source : Rat) ≠ 0 :=
    Nat.cast_ne_zero.mpr (h.vertexHits_pos hedge).ne'
  -- Every hit of an inner vertex went on by one of its edges, so that the shares add up.
  have hsum : ((g.leaving e.1.source).map fun e => (e.hits : Rat)).sum
      = g.vertexHits e.1.source := by
    rw [← h.sum_leaving hinner, Nat.cast_list_sum, List.map_map]
    rfl
  rw [outgoingMass_eq_sum, hshares, List.sum_map_mul_right, hsum, mul_inv_cancel₀ hhits]

/-- Where masses are one and targets are different there is nothing to report. -/
theorem sanityViolations_eq_nil
    (htargets : ∀ v, ((g.outgoing v).map fun e => e.1.target).Nodup)
    (hmass : ∀ v, g.outgoing v ≠ [] → g.outgoingMass v = 1) : g.sanityViolations = [] := by
  refine List.flatMap_eq_nil_iff.mpr fun v _ => ?_
  have hbalance : g.imbalance? v = none := by
    rw [imbalance?]
    refine if_neg fun h => ?_
    have hne : g.outgoing v ≠ [] := by simpa using h.1
    rw [hmass v hne] at h
    exact absurd h.2 (by decide +kernel)
  rw [violationsAt, metAgain_eq_nil (htargets v) (fun _ _ => List.not_mem_nil), hbalance]
  rfl

end Exact

/-- Recomputed graphs are sane. Whatever operations have led to a graph from a fresh one, it can be
recomputed. Every vertex at which no path ends then has the hits of its outgoing edges, and at least
one if there is such an edge. In exact arithmetic its outgoing probabilities sum to one, and nothing
is wrong with the graph. -/
theorem Fed.recompute_sane (procedure : ProcedureId) (base partitions : Nat) :
    (∀ {R : Type} [Scalar R] {g : Graph R}, Fed procedure base partitions g →
        ∃ g', g.recompute = .ok g' ∧ ∀ v, g'.isTerminal v = false → g'.Balanced v)
      ∧ ∀ {g g' : Graph Rat}, Fed procedure base partitions g → g.recompute = .ok g' →
        (∀ v, g'.isTerminal v = false → g'.outgoing v ≠ [] → g'.outgoingMass v = 1)
          ∧ g'.sanityViolations = [] := by
  constructor
  -- Counting is the same for all numbers.
  · intro R _ g h
    obtain ⟨steps, hsealed, htallied⟩ := h.counted
    obtain ⟨g', hrun, hsame, _, htallied'⟩ := hsealed.recompute_folded htallied
    have hfolded := hsame.folded (folded_foldWindow g)
    exact ⟨g', hrun, fun v hinner => hfolded.balanced htallied' hinner⟩
  -- That shares of a count sum to one takes exact division.
  · intro g g' h hrun
    obtain ⟨steps, hsealed, htallied⟩ := h.counted
    obtain ⟨g₁, hrun', hsame, hsealed', htallied'⟩ := hsealed.recompute_folded htallied
    obtain rfl := Except.ok.inj (hrun'.symm.trans hrun)
    have hmass : ∀ v, g₁.isTerminal v = false → g₁.outgoing v ≠ [] → g₁.outgoingMass v = 1 :=
      fun v hinner hne => htallied'.outgoingMass_eq_one hsame.weight hinner hne
    refine ⟨hmass, sanityViolations_eq_nil (fun v => ?_) fun v hne => hmass v ?_ hne⟩
    · have htargets := htallied'.nodup_targets v
      rwa [← map_fst_outgoing, List.map_map] at htargets
    · rw [← Bool.not_eq_true]
      exact fun hterminal => hne (hsealed'.outgoing_eq_nil hterminal)

/-- Records a transaction whose second query names a statement that its procedure lacks. -/
def halted : Edit :=
  let p : Procedure := ⟨0, "pay", [], [⟨0, "debit", .update, [], []⟩], false, true, none⟩
  let r : Router := ⟨1, fun _ _ => .ok 0, fun _ _ _ _ => .ok (.singleton 0)⟩
  .trace ⟨1, 0, [], [⟨0, [], 0, false, none⟩, ⟨7, [], 1, false, none⟩], false⟩ p r

/-- A fresh graph into which the transaction was recorded as far as it goes, and then a step from
where it got to ABORT. -/
def haltedGraph : Graph Rat :=
  match halted.run (fresh 0 0 1) with
  | .ok g => (g.link 3 2).1
  | .error _ => fresh 0 0 1

/-- The graph of the examples was fed with a trace that stops at its second query. -/
theorem fed_haltedGraph : Fed 0 0 1 haltedGraph := by
  rw [haltedGraph]
  split
  case h_1 g hrun =>
    have hfed : Fed 0 0 1 g := .edit (e := halted) .fresh ⟨nofun, nofun⟩ hrun
    have hcall : (halted.run (fresh 0 0 1 : Graph Rat)).toOption.map
        (fun g => (g.isTerminal 3, g.vertices.size)) = some (false, 4) := by
      decide +kernel
    rw [hrun] at hcall
    obtain ⟨hinner, hsize⟩ := Prod.mk.inj (Option.some.inj hcall)
    refine hfed.edit (e := .link 3 2) ⟨nofun, fun u hu => ?_⟩ ?_
    · cases hu
      exact hinner
    · rw [Edit.run, link?, if_pos (by omega)]
      rfl
  case h_2 => exact .fresh

/-- The broken-off transaction has left two steps, and its call is hit as often as it is left. -/
theorem recompute_sane_halted :
    Fed 0 0 1 haltedGraph
      ∧ ∃ g', haltedGraph.recompute = .ok g' ∧ g'.isTerminal 3 = false ∧ g'.outgoing 3 ≠ []
        ∧ g'.Balanced 3 ∧ g'.outgoingMass 3 = 1 ∧ g'.sanityViolations = [] := by
  obtain ⟨g', hrun, hbalanced⟩ := (Fed.recompute_sane 0 0 1).1 fed_haltedGraph
  obtain ⟨hmass, hsane⟩ := (Fed.recompute_sane 0 0 1).2 fed_haltedGraph hrun
  have hcall : g'.isTerminal 3 = false ∧ g'.outgoing 3 ≠ [] := by
    have hcomputed : haltedGraph.recompute.toOption.map
        (fun g => (g.isTerminal 3, (g.outgoing 3).isEmpty)) = some (false, false) := by
      decide +kernel
    rw [hrun] at hcomputed
    obtain ⟨hinner, hne⟩ := Prod.mk.inj (Option.some.inj hcomputed)
    exact ⟨hinner, fun hnil => by rw [hnil] at hne; cases hne⟩
  exact ⟨fed_haltedGraph, g', hrun, hcall.1, hcall.2, hbalanced 3 hcall.1, hmass 3 hcall.1 hcall.2,
    hsane⟩

end Graph

end TxnPath
