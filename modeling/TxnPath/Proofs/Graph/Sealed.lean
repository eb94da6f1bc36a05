import TxnPath.Proofs.Graph.Recording

/-!
# `TxnPath.Proofs.Graph.Sealed`: graphs that no edge leaves once a path has ended

Recomputing needs a graph that has its sentinels and in which no edge leaves COMMIT or ABORT
(`Graph.Sealed`). Nothing more is asked of the graph: it may be read from an archive, and hold
vertices to which nothing leads. A sealed graph can be recomputed (`Sealed.recompute`), and stays
sealed whatever is recorded in it, as a path is led on only from where it has not ended. It does not
lose any vertex either (`Graph.Grows`), so that open paths keep their places.
-/

set_option autoImplicit false

namespace TxnPath

namespace Graph

variable {R : Type} {g g' : Graph R} {s : Sentinels} {u v : Nat}

/-- The graph has its sentinels, and no edge leaves COMMIT or ABORT. -/
structure Sealed (g : Graph R) (s : Sentinels) : Prop where
  initialized : g.Initialized s
  ends : ∀ e ∈ g.edges, g.isTerminal e.source = false

/-- Graphs that hold paths are sealed. -/
theorem Recorded.sealed {paths : List (List Nat)} {n : Nat} (h : g.Recorded s paths n) :
    g.Sealed s where
  initialized := h.initialized
  ends e he := by
    rw [← Bool.not_eq_true, isTerminal_iff h.initialized, not_or]
    exact h.ends e he

/-- A fresh graph has no edges at all. -/
theorem sealed_fresh (procedure : ProcedureId) (base partitions : Nat) :
    (fresh procedure base partitions : Graph R).Sealed ⟨0, 1, 2⟩ :=
  (recorded_fresh procedure base partitions).sealed

/-- Where the edges are the same, a graph stays sealed. -/
theorem Sealed.of_sameHits (h : g.Sealed s) (hinit : g'.Initialized s) (hsame : SameHits g g') :
    g'.Sealed s where
  initialized := hinit
  ends e he := by
    have hmem : e.ends ∈ g.edges.toList.map Edge.ends :=
      hsame.ends ▸ List.mem_map_of_mem (Array.mem_toList_iff.mpr he)
    obtain ⟨e₀, he₀, hends⟩ := List.mem_map.mp hmem
    rw [hsame.terminal, ← (Prod.mk.inj hends).1]
    exact h.ends e₀ (Array.mem_toList_iff.mp he₀)

/-- Counting a transaction adds no edge. -/
theorem Sealed.recordTxn (h : g.Sealed s) : g.recordTxn.Sealed s :=
  ⟨h.initialized.recordTxn, h.ends⟩

/-- A link from where no path has ended leaves a graph sealed. The edge is there already or comes
from the vertex that the link starts from. -/
theorem Sealed.link [Zero R] (h : g.Sealed s) (hinner : g.isTerminal u = false)
    (hu : u < g.vertices.size) (hv : v < g.vertices.size) : (g.link u v).1.Sealed s where
  initialized := h.initialized.link hu hv
  ends e he := by
    rw [(grows_link g u v).terminal]
    have hends : e.ends ∈ (g.ensureEdge u v).1.edges.toList.map Edge.ends := by
      rw [← ends_modify _ (g.ensureEdge u v).2, ← edges_link]
      exact List.mem_map_of_mem (Array.mem_toList_iff.mpr he)
    -- An edge is an old one, or leads from `u`, where no path ends.
    obtain ⟨e₀, he₀, hsame⟩ := List.mem_map.mp hends
    rw [← (Prod.mk.inj hsame).1]
    have he₀ := Array.mem_toList_iff.mp he₀
    rcases ensureEdge_cases g u v with ⟨i, _, hensure, _⟩ | ⟨_, hensure⟩
    · rw [hensure] at he₀
      exact h.ends e₀ he₀
    · rw [hensure] at he₀
      rcases Array.mem_push.mp he₀ with hold | rfl
      · exact h.ends e₀ hold
      · exact hinner

/-! ### Recomputing -/

section Recompute

variable [Scalar R]

/-- A sealed graph can be recomputed, and comes out sealed, with all its vertices in place. -/
theorem Sealed.recompute (h : g.Sealed s) :
    ∃ g', g.recompute = .ok g' ∧ g'.Sealed s ∧ Grows g g' := by
  have hfolded := sameHits_foldWindow g
  have hfold := h.of_sameHits h.initialized.foldWindow hfolded
  -- Without edges out of the ends the order of derivation exists, whatever else is in the graph.
  have hends : ∀ e ∈ g.foldWindow.edges, e.source ≠ s.commit ∧ e.source ≠ s.abort := by
    intro e he
    rw [← not_or, ← isTerminal_iff hfold.initialized, hfold.ends e he]
    exact Bool.false_ne_true
  obtain ⟨_, g', _, hderive, hsame, _⟩ := hfold.initialized.derive_ok hends
  have hinit := hfold.initialized.unsetTables.weighEdges.of_sameButTables hsame
  exact ⟨g', hderive, hfold.of_sameHits hinit hsame.sameHits,
    hfolded.grows.trans hsame.sameHits.grows⟩

end Recompute

/-! ### Recording queries -/

section Replay

variable [Zero R] {q : Query} {step : Step} {p : Procedure} {r : Router}
  {called called' : List StatementId} {links : List (Nat × Nat)}

/-- Recording steps from where no path has ended leaves a graph sealed. That no path has ended there
is asked of the last graph, and holds in all before since vertices keep their kinds. -/
theorem Sealed.recording (h : g.Sealed s) (hrecording : Recording g links g')
    (hinner : ∀ p ∈ links, g'.isTerminal p.1 = false) : g'.Sealed s := by
  induction hrecording with
  | refl => exact h
  | @call g₁ _ c _ ih =>
    have hsame := sameHits_ensureCall g₁ c
    have hsealed := ih fun p hp => (hsame.terminal p.1).symm.trans (hinner p hp)
    exact hsealed.of_sameHits (hsealed.initialized.ensureCall c) hsame
  | @time g₁ _ v nanos _ ih =>
    have hsame := sameHits_addTime g₁ v nanos
    have hsealed := ih fun p hp => (hsame.terminal p.1).symm.trans (hinner p hp)
    exact hsealed.of_sameHits (hsealed.initialized.addTime v nanos) hsame
  -- Only a link adds an edge. Its source is told in the last graph, but has kept its kind.
  | @link g₁ _ u v _ hu hv ih =>
    have hterminal := (grows_link g₁ u v).terminal
    obtain ⟨hsource, hinner⟩ := List.forall_mem_cons.mp hinner
    have hsealed := ih fun p hp => (hterminal p.1).symm.trans (hinner p hp)
    exact hsealed.link ((hterminal _).symm.trans hsource) hu hv
  | txn _ ih => exact (ih hinner).recordTxn

/-- A query that is observed where its path has not ended keeps the graph sealed, and leads to a
vertex of it. -/
theorem Sealed.observe (h : g.Sealed s) (hinner : g.isTerminal u = false)
    (hrun : g.observe u q p r called = .ok (.ok (g', step, called'))) :
    g'.Sealed s ∧ Grows g g' ∧ g'.Leads step := by
  obtain ⟨links, hrecording, hleads, hsources⟩ := h.initialized.recording_observe hrun
  refine ⟨h.recording hrecording fun p hp => ?_, hrecording.grows, hleads⟩
  exact (hsources p hp).elim (fun heq => heq ▸ (hrecording.grows.terminal u).trans hinner) id

/-- Replaying a trace leaves a graph sealed, also where it is broken off. -/
theorem Sealed.replay {t : Trace} {result : Except Error (List Nat)} (h : g.Sealed s)
    (hrun : g.replay t p r = .ok (g', result)) : g'.Sealed s ∧ Grows g g' := by
  obtain ⟨links, hrecording, hsources⟩ := h.initialized.recording_replay hrun
  exact ⟨h.recording hrecording hsources, hrecording.grows⟩

end Replay

end Graph

end TxnPath
