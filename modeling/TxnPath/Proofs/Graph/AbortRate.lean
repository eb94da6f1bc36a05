import Mathlib
import TxnPath.Proofs.Graph.Accepted
import TxnPath.Proofs.Graph.Cycles
import TxnPath.Proofs.Graph.PathSums

/-!
# `TxnPath.Proofs.Graph.AbortRate`: trained graphs abort as often as they saw aborts

A graph forgets which trace took which branch, and still START's probability of aborting is the
share of aborted traces, if the graph has no cycle. The reason is a balance at every vertex: the
abort probability of a vertex, counted once per step that leaves it, is that of the ends of
these steps (`Trained.balanced`). So the changes of the abort probability along all
steps of all paths cancel out, and along one path they add up to the difference between its end
and START (`sum_steps`). Ends are ABORT or COMMIT, where the probability is one or zero.
-/

set_option autoImplicit false

namespace TxnPath.Graph

open Relation

variable {g g' : Graph Rat} {s : Sentinels} {paths : List (List Nat)} {n : Nat}

/-! ### Sums over steps -/

/-- Along a path, the changes of a value add up to the difference between its ends. Together with
the equations of the tables, this turns a sum over edges into one over paths. -/
theorem sum_steps (val : Nat → Rat) {π : List Nat} {u w : Nat} (hhead : π.head? = some u)
    (hlast : π.getLast? = some w) :
    ((stepsOf π).map fun p => val p.2 - val p.1).sum = val w - val u := by
  induction π generalizing u with
  | nil => cases hhead
  | cons x π ih =>
    cases hhead
    cases π with
    | nil =>
      cases hlast
      exact (sub_self _).symm
    | cons y π =>
      rw [List.getLast?_cons_cons] at hlast
      rw [stepsOf_cons_cons, List.map_cons, List.sum_cons, ih rfl hlast]
      ring

/-- Counting steps does not depend on how they are compared. -/
theorem count_eq (steps : List (Nat × Nat)) (p : Nat × Nat) :
    @List.count _ instBEqOfDecidableEq p steps = steps.count p := by
  rw [lawful_beq_subsingleton instBEqOfDecidableEq (instBEqProd : BEq (Nat × Nat))]

/-- A sum over steps is one over the edges, which count them. -/
theorem Tallied.sum_eq {steps : List (Nat × Nat)} (h : g.Tallied steps) (f : Nat × Nat → Rat) :
    (steps.map f).sum = (g.edges.toList.map fun e => e.hits * f e.ends).sum := by
  have hsupport : steps.toFinset = (g.edges.toList.map Edge.ends).toFinset := by
    ext p
    rw [List.mem_toFinset, List.mem_toFinset, h.covered]
  rw [Finset.sum_list_map_count, hsupport, List.sum_toFinset _ h.distinct, List.map_map]
  refine congrArg List.sum (List.map_congr_left fun e he => ?_)
  rw [Function.comp_apply, nsmul_eq_mul, count_eq, h.edge e (Array.mem_toList_iff.mp he)]

section Leaving

variable {R : Type} {g : Graph R} {v : Nat}

/-- The edges that leave a vertex, without their numbers. -/
def leaving (g : Graph R) (v : Nat) : List (Edge R) :=
  g.edges.toList.filter fun e => e.source == v

/-- The edges that leave a vertex are those that it is the source of. -/
theorem mem_leaving {e : Edge R} : e ∈ g.leaving v ↔ e ∈ g.edges ∧ e.source = v := by
  simp [leaving]

/-- They are the outgoing edges without their numbers. -/
theorem map_fst_outgoing (g : Graph R) (v : Nat) : (g.outgoing v).map Prod.fst = g.leaving v := by
  rw [outgoing, leaving, ← List.zipIdx_map_fst 0 g.edges.toList, List.filter_map,
    List.zipIdx_map_fst]
  rfl

/-- An outgoing edge is one of the graph that leaves the vertex. -/
theorem mem_outgoing {e : Edge R × Nat} (he : e ∈ g.outgoing v) :
    e.1 ∈ g.edges ∧ e.1.source = v :=
  mem_leaving.mp (map_fst_outgoing g v ▸ List.mem_map_of_mem he)

/-- At a vertex where no path ends, as many hits leave as there are. A step that leaves the vertex
hits both the vertex and one of its edges. -/
theorem Tallied.sum_leaving {steps : List (Nat × Nat)} (h : g.Tallied steps)
    (hinner : g.isTerminal v = false) : ((g.leaving v).map Edge.hits).sum = g.vertexHits v := by
  have hperm : (g.edges.toList.map Edge.ends).Perm steps.dedup := by
    refine (List.perm_ext_iff_of_nodup h.distinct (List.nodup_dedup _)).mpr fun p => ?_
    rw [List.mem_dedup, h.covered]
  have hcount : (g.leaving v).map Edge.hits
      = ((g.edges.toList.map Edge.ends).filter fun p => p.1 == v).map fun p =>
        @List.count _ instBEqOfDecidableEq p steps := by
    rw [List.filter_map, List.map_map]
    refine List.map_congr_left fun e he => ?_
    rw [Function.comp_apply, count_eq, h.edge e (mem_leaving.mp he).1]
  rw [h.vertex v, hinner, hcount, ((hperm.filter _).map _).sum_eq,
    List.sum_map_count_dedup_filter_eq_countP]
  rfl

end Leaving

/-- A sum over edges can be taken vertex by vertex, over the edges that leave it. It is what turns
the balance at every vertex into one equation for the whole graph. -/
theorem sum_edges (hsources : ∀ e ∈ g.edges, e.source < n) (f : Edge Rat → Rat) :
    (g.edges.toList.map f).sum = ∑ v ∈ Finset.range n, ((g.leaving v).map f).sum := by
  have hlist : ∀ es : List (Edge Rat), (∀ e ∈ es, e.source < n) → (es.map f).sum
      = ∑ v ∈ Finset.range n, ((es.filter fun e => e.source == v).map f).sum := by
    intro es
    -- Each edge counts at its source, which is one of the vertices summed over, and at no other.
    induction es with
    | nil => intro _; simp
    | cons e es ih =>
      intro hes
      obtain ⟨he, hes⟩ := List.forall_mem_cons.mp hes
      have hsplit : ∀ v, (((e :: es).filter fun e => e.source == v).map f).sum
          = (if e.source = v then f e else 0)
            + ((es.filter fun e => e.source == v).map f).sum := by
        intro v
        by_cases hv : e.source = v
        · simp [hv]
        · simp [hv]
      rw [List.map_cons, List.sum_cons, ih hes, Finset.sum_congr rfl fun v _ => hsplit v,
        Finset.sum_add_distrib, Finset.sum_ite_eq, if_pos (Finset.mem_range.mpr he)]
  exact hlist _ fun e he => hsources e (Array.mem_toList_iff.mp he)

/-! ### Balance at every vertex -/

/-- A graph that holds paths, and was recomputed since without an edge being skipped. Weights are
shares of hits, and tables satisfy their equations at every vertex, which together give the
probabilities a meaning in terms of the paths. -/
structure Trained (g : Graph Rat) (s : Sentinels) (paths : List (List Nat)) (n : Nat) : Prop where
  recorded : g.Recorded s paths n
  weight : ∀ e ∈ g.edges, e.probability = e.hits / g.vertexHits e.source
  known : ∀ v < g.vertices.size, (g.table v).Known g.partitions
  equations : ∀ v x, g.vertices[v]? = some x → g.Equations [] v x

/-- When the window has been folded, the totals hold all hits. -/
theorem totalHits_foldWindow {R : Type} [Scalar R] (g : Graph R) (v : Nat) :
    g.foldWindow.unsetTables.totalHits v = g.vertexHits v := by
  rw [totalHits, vertexHits, unsetTables, foldWindow, Array.map_map, Array.getElem?_map]
  cases g.vertices[v]? with
  | none => rfl
  | some x => rfl

/-- After recomputing, the probability of an edge is derived from all hits of it and of its source. -/
theorem SameButTables.probability {R : Type} [Scalar R] {g g' : Graph R}
    (h : SameButTables g.foldWindow.unsetTables.weighEdges g') :
    ∀ e ∈ g'.edges, e.probability
      = if 0 < g'.vertexHits e.source then Scalar.ratio e.hits (g'.vertexHits e.source) else 0 := by
  intro e he
  rw [((sameHits_foldWindow g).trans h.sameHits).vertex, ← totalHits_foldWindow]
  rw [h.edges] at he
  obtain ⟨e₁, he₁, rfl⟩ := Array.mem_map.mp he
  obtain ⟨e₀, _, rfl⟩ := Array.mem_map.mp he₁
  rfl

/-- Between rationals, it is the share of its source's hits. -/
theorem SameButTables.weight (h : SameButTables g.foldWindow.unsetTables.weighEdges g') :
    ∀ e ∈ g'.edges, e.probability = e.hits / g'.vertexHits e.source := by
  intro e he
  rw [h.probability e he]
  split
  case isTrue => rfl
  case isFalse hhits => rw [Nat.eq_zero_of_not_pos hhits, Nat.cast_zero, div_zero]

/-- Recomputing trains a graph that holds paths and has no cycle. Such a graph has no edge to skip,
so that the equations of its tables range over all edges. -/
theorem Recorded.trained (h : g.Recorded s paths n) (hacyclic : g.shape.Acyclic) :
    ∃ g', g.recompute = .ok g' ∧ g'.Trained s paths n := by
  have hfold := h.of_sameHits h.initialized.foldWindow (sameHits_foldWindow g)
  obtain ⟨r, g', horder, hderive, hsame, hsettled, _⟩ := hfold.initialized.derive_ok hfold.ends
  have hinit := hfold.initialized.unsetTables.weighEdges.of_sameButTables hsame
  have hshape : g.foldWindow.shape = g.shape := by
    simp [shape, foldWindow, List.zipIdx_map, Function.comp_def]
  -- Only edges on cycles are ever skipped.
  have hskipped : r.skipped = [] := by
    obtain ⟨_, horder', _⟩ := hfold.initialized.reverseOrder_ok hfold.ends
    rw [horder'] at horder
    rw [← Except.ok.inj horder]
    exact backEdges_of_acyclic (hshape ▸ hacyclic)
  rw [hskipped] at hsettled
  have hsize : g'.vertices.size = g.foldWindow.vertices.size := hsame.size.trans Array.size_map
  refine ⟨g', hderive, hfold.of_sameHits hinit hsame.sameHits, hsame.weight, fun v hv => ?_,
    fun v x hx => ?_⟩
  · exact (hsettled v (hsize ▸ hv)).known hv
  · have hv : v < g'.vertices.size := (Array.getElem?_eq_some_iff.mp hx).1
    exact hfold.initialized.equations hfold.ends hsame (hsettled v (hsize ▸ hv)) hx

/-- What the equations sum over is what leaves a vertex. -/
theorem expected_eq (val : Nat → Rat) (v : Nat) :
    g.expected [] val v = ((g.leaving v).map fun e => e.probability * val e.target).sum := by
  have hkept : (g.kept [] v).map Prod.fst = g.leaving v := by
    rw [kept, List.filter_eq_self.mpr (by simp), map_fst_outgoing]
  rw [expected, ← hkept, List.map_map]
  rfl

/-- The abort probability of a vertex is that of the ends of its edges, hit by hit. Nothing leaves
COMMIT and ABORT. At any other vertex the edges were hit as often as the vertex, and its abort
probability is the average over them by which it was derived. -/
theorem Trained.balanced (h : g.Trained s paths n) {v : Nat} (hv : v < g.vertices.size) :
    ((g.leaving v).map fun e => e.hits * (g.abortAt e.target - g.abortAt e.source)).sum = 0 := by
  cases hterminal : g.isTerminal v with
  | true =>
    -- Nothing leaves COMMIT and ABORT.
    refine List.sum_eq_zero fun y hy => ?_
    obtain ⟨e, he, rfl⟩ := List.mem_map.mp hy
    obtain ⟨hedge, rfl⟩ := mem_leaving.mp he
    obtain ⟨hcommit, habort⟩ := h.recorded.ends e hedge
    exact absurd ((isTerminal_iff h.recorded.initialized).mp hterminal)
      (not_or.mpr ⟨hcommit, habort⟩)
  | false =>
    have hhits := h.recorded.tallied.sum_leaving hterminal
    by_cases hzero : g.vertexHits v = 0
    · -- What was never left has edges that were never taken.
      rw [hzero, List.sum_eq_zero_iff] at hhits
      refine List.sum_eq_zero fun y hy => ?_
      obtain ⟨e, he, rfl⟩ := List.mem_map.mp hy
      rw [hhits _ (List.mem_map_of_mem he), Nat.cast_zero, zero_mul]
    · have hvalue : g.abortAt v = ((g.leaving v).map fun e =>
          e.probability * g.abortAt e.target).sum := by
        have habort := (h.equations v _ (Array.getElem?_eq_getElem hv)).abort
        have hkind : (g.vertices[v].kind == .abort) = false := by
          rw [isTerminal, Array.getElem?_eq_getElem hv] at hterminal
          cases hkind : g.vertices[v].kind with
          | abort => rw [Option.any_some, hkind] at hterminal; cases hterminal
          | start | commit | query c => rfl
        rwa [hkind, if_neg Bool.false_ne_true, if_pos rfl, zero_add, expected_eq] at habort
      have hterm : ∀ e ∈ g.leaving v, (e.hits : Rat) * (g.abortAt e.target - g.abortAt e.source)
          = g.vertexHits v * (e.probability * g.abortAt e.target) + e.hits * -g.abortAt v := by
        intro e he
        obtain ⟨hedge, rfl⟩ := mem_leaving.mp he
        have hne : (g.vertexHits e.source : Rat) ≠ 0 := Nat.cast_ne_zero.mpr hzero
        rw [h.weight e hedge]
        field_simp
        ring
      have hleaving : ((g.leaving v).map fun e => (e.hits : Rat)).sum = g.vertexHits v := by
        rw [← hhits, Nat.cast_list_sum, List.map_map]
        rfl
      rw [List.map_congr_left hterm, List.sum_map_add, List.sum_map_mul_left, ← hvalue,
        List.sum_map_mul_right, hleaving]
      ring

/-- The changes of the abort probability along all steps cancel out. -/
theorem Trained.sum_changes (h : g.Trained s paths n) :
    ((paths.flatMap stepsOf).map fun p => g.abortAt p.2 - g.abortAt p.1).sum = 0 := by
  rw [h.recorded.tallied.sum_eq, sum_edges fun e he => (h.recorded.initialized.edges e he).1]
  exact Finset.sum_eq_zero fun v hv => h.balanced (Finset.mem_range.mp hv)

/-- The abort probability is one at ABORT and zero at COMMIT. -/
theorem Trained.abortAt_end (h : g.Trained s paths n) (aborted : Bool) :
    g.abortAt (if aborted then s.abort else s.commit) = if aborted then 1 else 0 := by
  have hend : ∀ v kind, g.kind? v = some kind → kind.isTerminal = true →
      g.abortAt v = if kind == .abort then 1 else 0 := by
    intro v kind hkind hterminal
    obtain ⟨x, hx, rfl⟩ := Option.map_eq_some_iff.mp hkind
    have hequations := h.equations v x hx
    rw [hequations.abort, expected, hequations.ends hterminal]
    simp
  cases aborted with
  | false => exact hend _ _ h.recorded.initialized.commit rfl
  | true => exact hend _ _ h.recorded.initialized.abort rfl

/-- If every path is that of one trace, to ABORT or to COMMIT, then START's abort probability is
the share of the traces that aborted. -/
theorem Trained.abortAt_start (h : g.Trained s paths n) {aborted : List Bool}
    (hlast : paths.map List.getLast? = aborted.map fun b => some (if b then s.abort else s.commit))
    (hne : aborted ≠ []) :
    g.abortAt s.start = (aborted.countP id : Rat) / aborted.length := by
  -- Each path contributes the difference between its end and START, which is one or zero less the
  -- value at START. By induction on the paths, the differences sum to the number of aborted ones
  -- less as many times the value at START as there are paths.
  have hsum : ∀ (paths : List (List Nat)) (aborted : List Bool),
      (∀ π ∈ paths, g.IsPath s π) →
      (paths.map List.getLast? = aborted.map fun b => some (if b then s.abort else s.commit)) →
      ((paths.flatMap stepsOf).map fun p => g.abortAt p.2 - g.abortAt p.1).sum
        = (aborted.countP id : Rat) - aborted.length * g.abortAt s.start := by
    intro paths
    induction paths with
    | nil =>
      intro aborted _ hlast
      obtain rfl := List.map_eq_nil_iff.mp hlast.symm
      simp
    | cons π paths ih =>
      intro aborted hpaths hlast
      obtain ⟨hπ, hpaths⟩ := List.forall_mem_cons.mp hpaths
      cases aborted with
      | nil => cases hlast
      | cons b aborted =>
        obtain ⟨hend, hlast⟩ := List.cons.inj hlast
        rw [List.flatMap_cons, List.map_append, List.sum_append, ih aborted hpaths hlast,
          sum_steps g.abortAt hπ.starts hend, h.abortAt_end]
        cases b <;> simp <;> ring
  have hlength : (aborted.length : Rat) ≠ 0 :=
    Nat.cast_ne_zero.mpr (List.length_pos_iff.mpr hne).ne'
  -- But the sum over all steps of all paths is zero.
  have hzero := (hsum paths aborted h.recorded.path hlast).symm.trans h.sum_changes
  rw [eq_div_iff hlength]
  linarith

/-! ### Training -/

/-- Replays traces one after the other; there is no result unless each is recorded completely. -/
def acceptAll (g : Graph Rat) : List Sample → Option (Graph Rat)
  | [] => some g
  | x :: rest =>
    match g.replay x.trace x.procedure x.router with
    | .ok (g, .ok _) => acceptAll g rest
    | _ => none

/-- Feeding the samples one by one succeeds exactly if the graph accepts them all. The one can be
run, and the other is what theorems are about. -/
theorem acceptAll_iff {samples : List Sample} :
    g.acceptAll samples = some g' ↔ g.Accepts samples g' := by
  induction samples generalizing g with
  | nil =>
    rw [acceptAll]
    exact ⟨fun h => by cases h; exact .nil _, fun h => by cases h; rfl⟩
  | cons x samples ih =>
    rw [acceptAll]
    constructor
    · intro h
      split at h
      case h_1 hreplay => exact .cons hreplay (ih.mp h)
      case h_2 => cases h
    · rintro (_ | ⟨hreplay, hrest⟩)
      rw [hreplay]
      exact ih.mpr hrest

/-- Samples that are accepted add one path each, which ends as its sample says. -/
theorem Recorded.acceptAll {samples : List Sample} (h : g.Recorded s paths n)
    (hrun : g.acceptAll samples = some g') :
    ∃ new, g'.Recorded s (new ++ paths) (n + samples.length)
      ∧ new.map List.getLast? = (samples.map fun x => x.trace.isAborted).reverse.map
        fun aborted => some (if aborted then s.abort else s.commit) :=
  h.accepts (acceptAll_iff.mp hrun)

/-- After a fresh graph accepted some traces and was recomputed, START's abort probability is the
share of the traces that aborted, if the graph has no cycle. The tables do not know the traces any
more: it is the balance of hits at every vertex that brings the share about. -/
theorem abort_rate {procedure : ProcedureId} {base partitions : Nat} {samples : List Sample}
    (hrun : (fresh procedure base partitions).acceptAll samples = some g) (hne : samples ≠ [])
    (hacyclic : g.shape.Acyclic) :
    ∃ g' s, g.recompute = .ok g' ∧ g'.sentinels = some s
      ∧ (g'.table s.start).abort
        = some ((samples.countP fun x => x.trace.isAborted : Rat) / samples.length) := by
  obtain ⟨paths, hrecorded, hlast⟩ := (recorded_fresh procedure base partitions).acceptAll hrun
  rw [List.append_nil] at hrecorded
  obtain ⟨g', hrecompute, htrained⟩ := hrecorded.trained hacyclic
  have hinit := htrained.recorded.initialized
  refine ⟨g', ⟨0, 1, 2⟩, hrecompute, hinit.placed, ?_⟩
  have hstart := htrained.abortAt_start hlast (by simpa using hne)
  rw [List.countP_reverse, List.countP_map, List.length_reverse, List.length_map] at hstart
  rw [eq_some_getD (htrained.known _ (lt_size hinit.start)).abort]
  exact congrArg some hstart

/-- Four transactions of one procedure, which reads and may write after that. One commits after
the read and one after the write, one aborts in the write, and one aborts before it reads. -/
def fourSamples : List Sample :=
  let p : Procedure :=
    ⟨0, "transfer", [], [⟨0, "read", .select, [], []⟩, ⟨1, "write", .update, [], []⟩], false, true,
      none⟩
  let r : Router := ⟨1, fun _ _ => .ok 0, fun _ _ _ _ => .ok (.singleton 0)⟩
  let traces : List Trace :=
    [⟨1, 0, [], [⟨0, [], 0, false, none⟩], false⟩,
      ⟨2, 0, [], [⟨0, [], 0, false, none⟩, ⟨1, [], 1, false, none⟩], false⟩,
      ⟨3, 0, [], [⟨0, [], 0, false, none⟩, ⟨1, [], 1, true, none⟩], false⟩,
      ⟨4, 0, [], [], true⟩]
  traces.map fun t => ⟨t, p, r⟩

/-- Two of the four abort, and START's abort probability is a half. -/
theorem abort_rate_fourSamples :
    ∃ g g' s, (fresh 0 0 1).acceptAll fourSamples = some g ∧ g.shape.Acyclic
      ∧ g.recompute = .ok g' ∧ g'.sentinels = some s
      ∧ (g'.table s.start).abort = some (1 / 2) := by
  have hshape : ((fresh 0 0 1).acceptAll fourSamples).map shape
      = some ⟨5, [⟨0, 0, 3⟩, ⟨1, 3, 1⟩, ⟨2, 3, 4⟩, ⟨3, 4, 1⟩, ⟨4, 4, 2⟩, ⟨5, 0, 2⟩]⟩ := by
    decide +kernel
  obtain ⟨g, hrun, hg⟩ := Option.map_eq_some_iff.mp hshape
  have hacyclic : g.shape.Acyclic := by
    rw [hg]
    refine Digraph.Descends.acyclic (l := [0, 3, 4, 1, 2]) ?_ (by decide) (by decide)
    exact ⟨by decide, by decide, by decide, by decide, by decide, trivial⟩
  obtain ⟨g', s, hrecompute, hplaced, hrate⟩ := abort_rate hrun nofun hacyclic
  exact ⟨g, g', s, hrun, hacyclic, hrecompute, hplaced, hrate.trans (by decide +kernel)⟩

end TxnPath.Graph
