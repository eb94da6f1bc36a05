import TxnPath.Proofs.Graph.Evolution
import TxnPath.Proofs.Graph.Indexed

/-!
# `TxnPath.Proofs.Graph.Navigable`: finding one's way in a graph

Whatever operations have led to an indexed graph, from a fresh one or from one that was read from an
archive (`IndexedGraph.Reached`), its look-ups can be relied on (`IndexedGraph.Navigable`): each
sentinel is there once and found where it is noted, calls and pairs of vertices are found if they are
there and not else, and the edges at a vertex are listed once each in order of creation. No operation
takes this away, nor does it move a vertex or an edge, and a trace that was accepted is accepted again
without creating anything. `Reached.arena` puts this together.

All of it comes from the graph below. An indexed graph that was reached refines its graph, which the
same operations reach (`Reached.refines`), and every graph that is reached has an indexed one above it
(`exists_refines`). So what is kept at each creation is neither more nor less than what searching finds.
-/

set_option autoImplicit false

namespace TxnPath

open Std (ExtTreeMap)

namespace IndexedGraph

variable {R : Type} {x x' : IndexedGraph R} {g g' : Graph R} {s : Sentinels}

/-- One's way can be found: sentinels, calls, edges and the edges at each vertex are what look-ups
say. All look-ups read what is kept beside the vertices and edges, and nothing is searched. -/
structure Navigable (x : IndexedGraph R) (s : Sentinels) : Prop where
  sentinels : x.requireSentinels = .ok s
  /-- There is one vertex of each sentinel kind, where it is noted. -/
  start : ∀ v, x.kind? v = some .start ↔ v = s.start
  commit : ∀ v, x.kind? v = some .commit ↔ v = s.commit
  abort : ∀ v, x.kind? v = some .abort ↔ v = s.abort
  /-- No two vertices share a call, and the one that has it is found. -/
  callsApart : x.CallsApart
  findCall? : ∀ c v, x.findCall? c = some v ↔ ∃ d, x.kind? v = some (.query d) ∧ c.sameAs d = true
  /-- No two edges share their ends, and the one that has them is found. -/
  distinct : x.ends.Nodup
  findEdge? : ∀ a b i, x.findEdge? a b = some i ↔ x.ends[i]? = some (a, b)
  /-- Edges lead from vertex to vertex, and for every vertex there are two lists of edges. -/
  inside : ∀ p ∈ x.ends, p.1 < x.vertices.size ∧ p.2 < x.vertices.size
  outSize : x.outEdges.size = x.vertices.size
  inSize : x.inEdges.size = x.vertices.size
  /-- An edge is listed where it leaves and where it enters, and nowhere else. -/
  outgoing : ∀ v i, i ∈ x.outgoingAt v ↔ ∃ w, x.ends[i]? = some (v, w)
  incoming : ∀ v i, i ∈ x.incomingAt v ↔ ∃ u, x.ends[i]? = some (u, v)
  /-- It is listed there once, in order of creation. -/
  outgoingOrder : ∀ v, (x.outgoingAt v).Pairwise (· < ·)
  incomingOrder : ∀ v, (x.incomingAt v).Pairwise (· < ·)

/-- One's way can be found where the graph is tidy and what is kept beside it says what searching it
would. -/
theorem Refines.navigable (h : x.Refines g) (hg : g.Tidy s) : x.Navigable s := by
  obtain rfl := h.graph
  have hinit := hg.initialized
  exact
    { sentinels := hinit.requireSentinels_eq
      start := fun v => ⟨fun hv => hinit.once _ _ _ hv hinit.start rfl, fun hv => hv ▸ hinit.start⟩
      commit := fun v => ⟨fun hv => hinit.once _ _ _ hv hinit.commit rfl, fun hv => hv ▸ hinit.commit⟩
      abort := fun v => ⟨fun hv => hinit.once _ _ _ hv hinit.abort rfl, fun hv => hv ▸ hinit.abort⟩
      callsApart := hg.apart
      findCall? := fun c _ => h.calls c ▸ hg.findCall?_iff
      distinct := hg.distinct
      findEdge? := fun a b _ => h.steps a b ▸ hg.findEdge?_iff
      -- The rest is about the edges, and the lists in which they stand in the order of their
      -- numbers.
      inside := fun p hp => by
        obtain ⟨e, he, rfl⟩ := List.mem_map.mp hp
        exact hinit.edges e (Array.mem_toList_iff.mp he)
      outSize := h.outSize
      inSize := h.inSize
      outgoing := fun v i => by
        simp [h.outgoing, Graph.numbers_outgoing, List.mem_zipIdx_iff_getElem?]
      incoming := fun v i => by
        simp [h.incoming, Graph.numbers_incoming, List.mem_zipIdx_iff_getElem?]
      outgoingOrder := fun v => by
        rw [h.outgoing]
        exact List.pairwise_map.mpr (Graph.pairwise_outgoing _ v)
      incomingOrder := fun v => by
        rw [h.incoming]
        exact List.pairwise_map.mpr (Graph.pairwise_incoming _ v) }

/-- Two indexed graphs of the same vertices and edges, in which the same is found. They may differ
in what was counted and derived. -/
structure SameLayout (x x' : IndexedGraph R) : Prop where
  graph : Graph.SameLayout x.toGraph x'.toGraph
  calls : x'.calls = x.calls
  steps : x'.steps = x.steps
  outEdges : x'.outEdges = x.outEdges
  inEdges : x'.inEdges = x.inEdges

/-- What is kept beside the vertices and edges is determined by them: two indexed graphs that refine
graphs of one layout have the same lists and the same indexes. Maps are compared entry by entry,
each being what the search in the graph finds. -/
theorem Refines.sameLayout (h : x.Refines g) (h' : x'.Refines g') (hsame : Graph.SameLayout g g') :
    SameLayout x x' := by
  have hlists : ∀ {lists lists' : Array (List Nat)}, lists'.size = lists.size →
      (∀ v, (lists'[v]?).getD [] = (lists[v]?).getD []) → lists' = lists := fun hsize hall =>
    Array.ext hsize fun v hv hv' => by
      have hat := hall v
      rwa [Array.getElem?_eq_getElem hv, Array.getElem?_eq_getElem hv'] at hat
  have hsize := hsame.size
  refine ⟨h.graph ▸ h'.graph ▸ hsame, ExtTreeMap.ext_getElem? fun {k} => ?_,
    ExtTreeMap.ext_getElem? fun {p} => ?_, hlists (by rw [h.outSize, h'.outSize, hsize]) fun v => ?_,
    hlists (by rw [h.inSize, h'.inSize, hsize]) fun v => ?_⟩
  · -- Every key is that of a call, whatever the call does.
    have hcall := h.calls ⟨k.statement, k.occurrence, k.partitions, .select⟩
    have hcall' := h'.calls ⟨k.statement, k.occurrence, k.partitions, .select⟩
    rw [Graph.findCall?_eq] at hcall hcall'
    exact hcall'.trans (hsame.kinds ▸ hcall.symm)
  -- Keys of pairs are the pairs themselves.
  · have hstep := h.steps p.1 p.2
    have hstep' := h'.steps p.1 p.2
    rw [Graph.findEdge?_eq] at hstep hstep'
    exact hstep'.trans (hsame.ends ▸ hstep.symm)
  · refine (h'.outgoing v).trans (Eq.trans ?_ (h.outgoing v).symm)
    rw [Graph.numbers_outgoing, Graph.numbers_outgoing, hsame.ends]
  · refine (h'.incoming v).trans (Eq.trans ?_ (h.incoming v).symm)
    rw [Graph.numbers_incoming, Graph.numbers_incoming, hsame.ends]

/-! ### What operations lead to -/

variable [Scalar R]

/-- Operations lead from one indexed graph to another. -/
def Evolves (x x' : IndexedGraph R) : Prop :=
  Relation.ReflTransGen (fun x x' => ∃ e : Graph.Edit, x.edit e = .ok x') x x'

/-- The indexed graphs that operations lead to from fresh ones and from those read from an archive. -/
inductive Reached : IndexedGraph R → Prop
  | fresh (procedure : ProcedureId) (base partitions : Nat) :
    Reached (fresh procedure base partitions)
  | loaded {x : IndexedGraph R} {r : GraphRecord} {c : Catalog} :
    load r c = .ok (.ok x) → Reached x
  | edited {x x' : IndexedGraph R} {e : Graph.Edit} : Reached x → x.edit e = .ok x' → Reached x'

/-- What has been kept at each creation says what searching would, however the graph was reached.
The graph of vertices and edges is reached in the same way, so that what holds of such graphs holds
here. -/
theorem Reached.refines (h : x.Reached) : x.Refines x.toGraph ∧ x.toGraph.Reached := by
  induction h with
  | fresh procedure base partitions =>
    exact ⟨refines_fresh procedure base partitions, .fresh procedure base partitions⟩
  | @loaded x r c hload =>
    obtain ⟨result, hload', halike⟩ := (refines_load r c).ok_left hload
    obtain ⟨g, rfl, hrefines⟩ := halike.ok_left rfl
    obtain rfl := hrefines.graph
    exact ⟨hrefines, .loaded hload'⟩
  | @edited x x' e _ hrun ih =>
    obtain ⟨s, htidy⟩ := ih.2.tidy
    obtain ⟨g', hrun', hrefines⟩ := (ih.1.edit htidy.initialized e).ok_left hrun
    obtain rfl := hrefines.graph
    exact ⟨hrefines, ih.2.edited hrun'⟩

/-- Every graph that operations lead to is that of an indexed graph that the same operations lead
to. -/
theorem exists_refines (h : g.Reached) : ∃ x : IndexedGraph R, x.Reached ∧ x.Refines g := by
  induction h with
  | fresh procedure base partitions =>
    exact ⟨_, .fresh procedure base partitions, refines_fresh procedure base partitions⟩
  | @loaded g r c hload =>
    obtain ⟨result, hload', halike⟩ := (refines_load r c).ok_right hload
    obtain ⟨x, rfl, hrefines⟩ := halike.ok_right rfl
    exact ⟨x, .loaded hload', hrefines⟩
  | @edited g g' e hg hrun ih =>
    obtain ⟨x, hx, hrefines⟩ := ih
    obtain ⟨s, htidy⟩ := hg.tidy
    obtain ⟨x', hrun', hrefines'⟩ := (hrefines.edit htidy.initialized e).ok_right hrun
    exact ⟨x', hx.edited hrun', hrefines'⟩

/-- Where operations lead from an indexed graph, they lead from its graph. -/
theorem Reached.evolves (h : x.Reached) (hevolves : x.Evolves x') :
    x'.Reached ∧ x.toGraph.Evolves x'.toGraph := by
  induction hevolves with
  | refl => exact ⟨h, .refl⟩
  | tail _ hstep ih =>
    obtain ⟨e, hrun⟩ := hstep
    obtain ⟨s, htidy⟩ := ih.1.refines.2.tidy
    obtain ⟨g', hrun', hrefines⟩ := (ih.1.refines.1.edit htidy.initialized e).ok_left hrun
    obtain rfl := hrefines.graph
    exact ⟨ih.1.edited hrun, ih.2.tail ⟨e, hrun'⟩⟩

/-- Indexed graphs stay navigable, and their vertices and edges stay what they are. In every one that
operations lead to one's way can be found by what is kept beside the vertices and edges. Operations do
to these what they do to a graph that is searched instead, and none changes what a vertex stands for or
where an edge leads. And a trace that was accepted is accepted again at any time later, on the same path
and without a new vertex, edge or entry. -/
theorem Reached.arena (h : x.Reached) :
    (∃ s, x.Navigable s)
      ∧ (∀ e : Graph.Edit, (x.edit e).map toGraph = e.run x.toGraph)
      ∧ (∀ (e : Graph.Edit) x', x.edit e = .ok x' → Graph.Extends x.toGraph x'.toGraph)
      ∧ ∀ (t : Trace) (p : Procedure) (r : Router) path x₁ x₂,
        x.replay t p r = .ok (x₁, .ok path) → x₁.Evolves x₂ →
          ∃ x₃, x₂.replay t p r = .ok (x₃, .ok path) ∧ SameLayout x₂ x₃ := by
  obtain ⟨hrefines, hreached⟩ := h.refines
  obtain ⟨s, htidy⟩ := hreached.tidy
  refine ⟨⟨s, hrefines.navigable htidy⟩, fun e => ?_, fun e x' hrun => ?_,
    fun t p r path x₁ x₂ hreplay hevolves => ?_⟩
  · exact (hrefines.edit htidy.initialized e).map_eq Refines.graph
  · obtain ⟨g', hrun', hrefines'⟩ := (hrefines.edit htidy.initialized e).ok_left hrun
    exact hrefines'.graph ▸ Graph.Edit.extends htidy.initialized hrun'
  · -- The graph has recorded the trace as well, and records it again where it has led since.
    have hrun : x.edit (.trace t p r) = .ok x₁ := by rw [IndexedGraph.edit, hreplay]; rfl
    obtain ⟨hreached₂, hevolves'⟩ := (h.edited hrun).evolves hevolves
    obtain ⟨⟨g₁, result⟩, hreplay₁, hbeside₁⟩ := (hrefines.replay htidy.initialized t).ok_left hreplay
    obtain ⟨rfl, rfl⟩ : x₁.toGraph = g₁ ∧ .ok path = result := ⟨hbeside₁.1.graph, hbeside₁.2⟩
    have hrun₁ : (Graph.Edit.trace t p r).run x.toGraph = .ok x₁.toGraph := by
      rw [Graph.Edit.run, hreplay₁]
      rfl
    obtain ⟨htidy₂, hextends⟩ := (Graph.Edit.tidy htidy hrun₁).evolves hevolves'
    obtain ⟨g₃, hreplay₂, hsame⟩ := hextends.replay_again hreplay₁
    obtain ⟨hrefines₂, _⟩ := hreached₂.refines
    obtain ⟨⟨x₃, result⟩, hreplay₃, hbeside₃⟩ :=
      (hrefines₂.replay htidy₂.initialized t).ok_right hreplay₂
    obtain rfl : result = .ok path := hbeside₃.2
    exact ⟨x₃, hreplay₃, hrefines₂.sameLayout hbeside₃.1 hsame⟩

section Stray

open GraphRecord

/-- A graph that was read from a record of a call at the sixth partition. A trace at the first
partition gets a vertex of its own behind it, and nothing the second time. -/
theorem reached_arena_stray :
    ∃ x x₁ x₃ : IndexedGraph Rat, load stray pay = .ok (.ok x) ∧ (∃ s, x.Navigable s)
      ∧ x.replay ⟨1, 0, [], [⟨0, [], 0, false, none⟩], false⟩ payment payRouter
        = .ok (x₁, .ok [0, 4, 1])
      ∧ Graph.Extends x.toGraph x₁.toGraph ∧ x₁.ends = [(0, 3), (3, 1), (0, 4), (4, 1)]
      ∧ x₁.outEdges = #[[0, 2], [], [], [1], [3]] ∧ x₁.inEdges = #[[], [1, 3], [], [0], [2]]
      ∧ x₁.replay ⟨1, 0, [], [⟨0, [], 0, false, none⟩], false⟩ payment payRouter
        = .ok (x₃, .ok [0, 4, 1])
      ∧ SameLayout x₁ x₃ := by
  have hrun : ((load stray pay : Except Fault (Except Error (IndexedGraph Rat))).toOption.bind
      Except.toOption).bind (fun x =>
        (x.replay ⟨1, 0, [], [⟨0, [], 0, false, none⟩], false⟩ payment payRouter).toOption.map
          fun out => (out.2.toOption, out.1.ends, out.1.outEdges, out.1.inEdges))
        = some (some [0, 4, 1], [(0, 3), (3, 1), (0, 4), (4, 1)], #[[0, 2], [], [], [1], [3]],
          #[[], [1, 3], [], [0], [2]]) := by
    decide +kernel
  -- The run is evaluated once, and then taken apart into loading and the first trace.
  obtain ⟨x, hx, hrun⟩ := Option.bind_eq_some_iff.mp hrun
  obtain ⟨result, hload, hresult⟩ := Option.bind_eq_some_iff.mp hx
  have hload := Outcome.of_toOption hload
  obtain rfl := Outcome.of_toOption hresult
  obtain ⟨⟨x₁, path⟩, hreplay, hout⟩ := Option.map_eq_some_iff.mp hrun
  simp only [Prod.mk.injEq] at hout
  obtain ⟨hpath, hends, houtEdges, hinEdges⟩ := hout
  obtain rfl := Outcome.of_toOption hpath
  have hfirst := Outcome.of_toOption hreplay
  obtain ⟨hnavigable, _, hextends, hagain⟩ := Reached.arena (.loaded hload)
  obtain ⟨x₃, hsecond, hsame⟩ := hagain _ _ _ _ _ _ hfirst .refl
  exact ⟨x, x₁, x₃, hload, hnavigable, hfirst,
    hextends (.trace _ _ _) _ (by rw [edit, hfirst]; rfl), hends, houtEdges, hinEdges, hsecond, hsame⟩

end Stray

end IndexedGraph

end TxnPath
