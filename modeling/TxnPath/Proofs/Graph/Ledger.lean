import TxnPath.Proofs.Graph.Balance
import TxnPath.Proofs.Graph.Counters

/-!
# `TxnPath.Proofs.Graph.Ledger`: the paths behind the counters

A graph counts the hits of a vertex in the totals and in the window. `Graph.Ledger` keeps the paths that
they come from: those of the transactions that were folded into the totals, and those of the window. A
transaction that was in the window when it was forgotten is in neither. It is no longer counted in the
window, but it is still counted in all: the ledger has the number of those.

An accepted trace, a recomputation and a reset lead from one ledger to the next (`Ledger.replay`,
`Ledger.recompute`, `Ledger.resetWindow`).
-/

set_option autoImplicit false

namespace TxnPath

namespace Graph

variable {R : Type} {g g' : Graph R} {s : Sentinels} {folded window : List (List Nat)} {n : Nat}

/-- The totals are the hits of some paths, and the hits of the window those of others. Besides, some
transactions were counted of which no hits are left. -/
structure Ledger (g : Graph R) (s : Sentinels) (folded window : List (List Nat)) (dropped : Nat) :
    Prop where
  sealed : g.Sealed s
  /-- Each path goes on from START once. -/
  once : ∀ π ∈ window ++ folded, π.dropLast.count s.start = 1
  total : ∀ v, g.totalHits v = g.hitsBy (folded.flatMap stepsOf) v
  recent : ∀ v, g.windowHits v = g.hitsBy (window.flatMap stepsOf) v
  txns : g.txns = folded.length + window.length + dropped
  windowTxns : g.windowTxns = window.length

/-- A fresh graph has empty books. -/
theorem ledger_fresh (procedure : ProcedureId) (base partitions : Nat) :
    (fresh procedure base partitions : Graph R).Ledger ⟨0, 1, 2⟩ [] [] 0 where
  sealed := sealed_fresh procedure base partitions
  once := nofun
  total v := by
    rw [List.flatMap_nil, hitsBy_nil]
    rcases v with _ | _ | _ | v <;> rfl
  recent v := by
    rw [List.flatMap_nil, hitsBy_nil]
    rcases v with _ | _ | _ | v <;> rfl
  txns := rfl
  windowTxns := rfl

/-- Each path hits START once. -/
theorem Sealed.hitsBy_start {paths : List (List Nat)} (h : g.Sealed s)
    (honce : ∀ π ∈ paths, π.dropLast.count s.start = 1) :
    g.hitsBy (paths.flatMap stepsOf) s.start = paths.length := by
  rw [hitsBy, if_neg (by rw [isTerminal_start h.initialized]; exact Bool.false_ne_true),
    List.countP_flatMap, Nat.add_zero]
  have hones : paths.map ((List.countP fun p => p.1 == s.start) ∘ stepsOf)
      = paths.map fun _ => 1 :=
    List.map_congr_left fun π hπ => (countP_fst_stepsOf π s.start).trans (honce π hπ)
  rw [hones, List.map_const', List.sum_replicate_nat, Nat.mul_one]

/-- START has been left once by each transaction that was folded, and is entered by none. -/
theorem Ledger.totalHits_start (h : g.Ledger s folded window n) :
    g.totalHits s.start = folded.length := by
  rw [h.total, h.sealed.hitsBy_start fun π hπ => h.once π (List.mem_append_right _ hπ)]

/-- And once by each transaction of the window. -/
theorem Ledger.windowHits_start (h : g.Ledger s folded window n) :
    g.windowHits s.start = g.windowTxns := by
  rw [h.recent, h.sealed.hitsBy_start fun π hπ => h.once π (List.mem_append_left _ hπ), h.windowTxns]

/-! ### Operations on the ledger -/

/-- An accepted trace adds its path to the window. -/
theorem Ledger.replay [Zero R] {t : Trace} {p : Procedure} {r : Router} {path : List Nat}
    (h : g.Ledger s folded window n) (hrun : g.replay t p r = .ok (g', .ok path)) :
    g'.Ledger s folded (path :: window) n := by
  obtain ⟨hrecording, honce, htxns, hwindow⟩ := h.sealed.initialized.replay_path hrun
  have hterminal := fun v => hrecording.grows.terminal v
  refine ⟨(h.sealed.replay hrun).1, List.forall_mem_cons.mpr ⟨honce, h.once⟩, fun v => ?_,
    fun v => ?_, ?_, ?_⟩
  · rw [hrecording.totalHits, hitsBy_congr (hterminal v), h.total]
  · rw [hrecording.windowHits, hitsBy_congr (hterminal v), h.recent, List.flatMap_cons, hitsBy_append,
      g.hitsBy_perm (List.reverse_perm _), Nat.add_comm]
  · rw [htxns, h.txns, List.length_cons]
    omega
  · rw [hwindow, h.windowTxns, List.length_cons]

/-- Recomputing gives a result, and folds the window. All hits are totals then, and the paths of the
window are among those folded. -/
theorem Ledger.recompute [Scalar R] (h : g.Ledger s folded window n) :
    ∃ g', g.recompute = .ok g' ∧ g'.Ledger s (window ++ folded) [] n := by
  obtain ⟨g', hrun, hsealed, hgrows⟩ := h.sealed.recompute
  have hsame := (h.sealed.initialized.foldWindow.derive_same hrun).2
  -- Hits are only moved, and none is left in the window.
  have hhits := (sameHits_foldWindow g).trans hsame.sameHits
  have hfolded := hsame.folded (folded_foldWindow g)
  have hempty : ∀ v, g'.windowHits v = 0 := fun v => by
    have := g'.vertexHits_eq v
    have := hfolded.totalHits_vertex v
    omega
  refine ⟨g', hrun, hsealed, h.once, fun v => ?_, fun v => ?_, ?_, hfolded.txns⟩
  · rw [hfolded.totalHits_vertex, hhits.vertex, vertexHits_eq, h.total, h.recent,
      hitsBy_congr (hgrows.terminal v), List.flatMap_append, hitsBy_append, Nat.add_comm]
  · rw [hempty, List.flatMap_nil, hitsBy_nil]
  · rw [hhits.txns, h.txns, List.length_append, List.length_nil]
    omega

/-- Resetting forgets the paths of the window, but the transactions stay counted. From then on the
count of transactions exceeds the paths by as many as were dropped. -/
theorem Ledger.resetWindow (h : g.Ledger s folded window n) :
    g.resetWindow.Ledger s folded [] (n + window.length) := by
  have hsame := sameLayout_resetWindow g
  have hterminal : ∀ v, g.resetWindow.isTerminal v = g.isTerminal v :=
    fun v => isTerminal_congr (hsame.kind v)
  have hvertex : ∀ v : Nat, g.resetWindow.vertices[v]?
      = g.vertices[v]?.map fun x => { x with windowHits := 0 } := fun v => Array.getElem?_map
  refine ⟨⟨h.sealed.initialized.resetWindow, fun e he => ?_⟩,
    fun π hπ => h.once π (List.mem_append_right _ hπ), fun v => ?_, fun v => ?_, ?_, rfl⟩
  · obtain ⟨e₀, he₀, rfl⟩ := Array.mem_map.mp he
    exact (hterminal _).trans (h.sealed.ends e₀ he₀)
  -- The totals are those of the folded paths as before, and the window has no hits.
  · rw [hitsBy_congr (hterminal v), ← h.total, totalHits_eq, totalHits_eq, hvertex, Option.elim_map]
    rfl
  · rw [List.flatMap_nil, hitsBy_nil, windowHits, hvertex, Option.elim_map]
    cases g.vertices[v]? <;> rfl
  · show g.txns = _
    rw [h.txns, List.length_nil]
    omega

end Graph

end TxnPath
