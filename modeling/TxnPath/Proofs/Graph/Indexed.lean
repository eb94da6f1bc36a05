import TxnPath.Graph.Indexed
import TxnPath.Proofs.Graph.Arena

/-!
# `TxnPath.Proofs.Graph.Indexed`: indexed graphs do what their graphs do

An indexed graph keeps, beside its vertices and edges, what look-ups read. `IndexedGraph.Refines` says
that these say the same as searching the vertices and edges would: calls and pairs of vertices are
found that searching finds, and the lists at each vertex are the edges there in order of creation.

Every creation of a vertex or an edge keeps it so (`Refines.addVertex`, `Refines.addEdge`), provided
that what is created was not there; this is what each creation asks its indexes first. Everything
else leaves vertices and edges where they are (`Refines.onArenas`). From these three follows, for one
operation after the other up to recording a trace (`Refines.replay`) and loading a record
(`refines_load`), that it comes out alike on an indexed graph and on its graph: with the same fault or
the same result, and again refining.

What is proved about graphs therefore holds of indexed graphs, and what they keep is what the
definitions on graphs compute.
-/

set_option autoImplicit false

namespace TxnPath

open Std (ExtTreeMap LawfulEqCmp)
open Outcome (Alike)

variable {R : Type}

/-- Calls are told apart by their keys. -/
theorem Call.sameAs_iff {a b : Call} : a.sameAs b = true ↔ a.key = b.key := by
  simp only [Call.sameAs, Bool.and_eq_true, beq_iff_eq, Call.key, CallKey.mk.injEq, and_assoc]

namespace Graph

variable {g g' : Graph R}

/-! ### The edges at a vertex by their numbers -/

/-- The edges that leave a vertex, by their numbers: those whose ends begin with it. -/
theorem numbers_outgoing (g : Graph R) (v : Nat) :
    (g.outgoing v).map Prod.snd = (g.ends.zipIdx.filter fun e => e.1.1 == v).map Prod.snd := by
  rw [outgoing, ends, List.zipIdx_map, List.filter_map, List.map_map]
  rfl

/-- The edges that enter a vertex, by their numbers: those whose ends finish with it. -/
theorem numbers_incoming (g : Graph R) (v : Nat) :
    (g.incoming v).map Prod.snd = (g.ends.zipIdx.filter fun e => e.1.2 == v).map Prod.snd := by
  rw [incoming, ends, List.zipIdx_map, List.filter_map, List.map_map]
  rfl

/-- A new edge comes last among those at its ends, and is not among the others. What is at a vertex
is told by a property of the two ends. -/
theorem numbers_push (g : Graph R) (e : Edge R) (p : Nat × Nat → Bool) :
    ((ends { g with edges := g.edges.push e }).zipIdx.filter fun x => p x.1).map Prod.snd
      = (g.ends.zipIdx.filter fun x => p x.1).map Prod.snd
        ++ if p e.ends then [g.edges.size] else [] := by
  have hends : ends { g with edges := g.edges.push e } = g.ends ++ [e.ends] := by simp [ends]
  have hlength : g.ends.length = g.edges.size := by simp [ends]
  rw [hends, List.zipIdx_append, List.filter_append, List.map_append, Nat.zero_add, hlength]
  cases hp : p e.ends <;> simp [hp]

end Graph

namespace IndexedGraph

variable {x : IndexedGraph R} {g g' : Graph R} {s : Sentinels} {u v : Nat}

/-- An indexed graph refines a graph if its vertices and edges are those of the graph, look-ups give
what searching the graph gives, and the lists at vertices are the edges of the graph there. Edges
must not dangle, as there are lists for vertices only. -/
structure Refines (x : IndexedGraph R) (g : Graph R) : Prop where
  graph : x.toGraph = g
  calls : ∀ c, x.findCall? c = g.findCall? c
  steps : ∀ a b, x.findEdge? a b = g.findEdge? a b
  outSize : x.outEdges.size = g.vertices.size
  inSize : x.inEdges.size = g.vertices.size
  outgoing : ∀ v, x.outgoingAt v = (g.outgoing v).map Prod.snd
  incoming : ∀ v, x.incomingAt v = (g.incoming v).map Prod.snd
  inside : ∀ e ∈ g.edges, e.source < g.vertices.size ∧ e.target < g.vertices.size

/-- Results beside which there is an indexed graph and a graph that it refines. -/
def Beside {α : Type} (a : IndexedGraph R × α) (b : Graph R × α) : Prop := a.1.Refines b.1 ∧ a.2 = b.2

/-- A graph without vertices is found empty by searching and by looking up. -/
theorem refines_bare (procedure : ProcedureId) (base partitions : Nat) :
    (bare procedure base partitions : IndexedGraph R).Refines (.bare procedure base partitions) where
  graph := rfl
  calls := fun _ => ExtTreeMap.getElem?_empty.trans (by simp [Graph.findCall?, Graph.bare])
  steps := fun _ _ => ExtTreeMap.getElem?_empty.trans (by simp [Graph.findEdge?, Graph.bare])
  outSize := rfl
  inSize := rfl
  outgoing := fun _ => rfl
  incoming := fun _ => rfl
  inside := nofun

/-- Edges are read back by their numbers. -/
theorem edgesOf_numbers {es : List (Edge R × Nat)} (h : ∀ e ∈ es, x.edges[e.2]? = some e.1) :
    x.edgesOf (es.map Prod.snd) = es := by
  have hread : ∀ e ∈ es, ((fun i => x.edges[i]?.map fun e => (e, i)) ∘ Prod.snd) e = some e :=
    fun e he => by rw [Function.comp_apply, h e he]; rfl
  rw [edgesOf, List.filterMap_map, List.filterMap_congr hread, List.filterMap_some]

/-- The edges that leave a vertex, as they are read from its list, are those that searching the graph
gives. So whatever reads them, from deriving probabilities to walking, may read the lists instead. -/
theorem Refines.outgoing_eq (h : x.Refines g) (v : Nat) : x.outgoing v = g.outgoing v := by
  rw [IndexedGraph.outgoing, h.outgoing]
  refine edgesOf_numbers fun e he => ?_
  rw [h.graph, ← Array.getElem?_toList]
  exact List.mem_zipIdx_iff_getElem?.mp (List.mem_filter.mp he).1

/-- The same of the edges that enter a vertex, which peeling a graph reads. -/
theorem Refines.incoming_eq (h : x.Refines g) (v : Nat) : x.incoming v = g.incoming v := by
  rw [IndexedGraph.incoming, h.incoming]
  refine edgesOf_numbers fun e he => ?_
  rw [h.graph, ← Array.getElem?_toList]
  exact List.mem_zipIdx_iff_getElem?.mp (List.mem_filter.mp he).1

/-! ### Creating vertices and edges -/

/-- A list at a new vertex is empty, as is what was read there before. -/
theorem getD_push_nil (lists : Array (List Nat)) (v : Nat) :
    ((lists.push [])[v]?).getD [] = (lists[v]?).getD [] := by
  rw [Array.getElem?_push]
  split
  case isTrue heq => rw [heq, Array.getElem?_size, Option.getD_some, Option.getD_none]
  case isFalse => rfl

/-- An edge comes last in the list at its vertex, and in no other. -/
theorem getD_modify_append {lists : Array (List Nat)} {u : Nat} (hu : u < lists.size) (v i : Nat) :
    ((lists.modify u fun es => es ++ [i])[v]?).getD []
      = (lists[v]?).getD [] ++ if u == v then [i] else [] := by
  rw [Array.getElem?_modify]
  split
  case isTrue heq =>
    subst heq
    simp [Array.getElem?_eq_getElem hu]
  case isFalse hne => simp [hne]

/-- A vertex is entered under its call, at which nothing was found before. That is where this
differs from the search: entering a vertex overwrites what was found under its key, whereas the
search would still find the older of the two. It is why the lemma asks that the call be new. -/
theorem Refines.addVertex (h : x.Refines g) {y : Vertex R}
    (hnew : ∀ c, y.kind = .query c → g.findCall? c = none) :
    (x.addVertex y).Refines { g with vertices := g.vertices.push y } where
  graph := by rw [IndexedGraph.addVertex, h.graph]
  calls := fun c => by
    have hold := h.calls
    rw [Graph.findCall?, Array.findIdx?_push]
    cases hkind : y.kind with
    | start | commit | abort =>
      simp only [IndexedGraph.findCall?, IndexedGraph.addVertex, hkind]
      rw [show (VertexKind.call? _).any c.sameAs = false from rfl, if_neg Bool.false_ne_true,
        Option.or_none]
      exact hold c
    | query d =>
      simp only [IndexedGraph.findCall?, IndexedGraph.addVertex, hkind, ExtTreeMap.getElem?_insert,
        LawfulEqCmp.compare_eq_iff_eq, h.graph]
      rw [show (VertexKind.query d).call?.any c.sameAs = c.sameAs d from rfl]
      -- A call that is not told from the new one was not found either.
      by_cases hkey : d.key = c.key
      · have hnone : g.findCall? c = none := by
          rw [← hold, IndexedGraph.findCall?, ← hkey]
          exact (hold d).trans (hnew d hkind)
        rw [if_pos hkey, if_pos (Call.sameAs_iff.mpr hkey.symm)]
        exact (congrArg (Option.or · _) hnone).symm
      · rw [if_neg hkey, if_neg fun hsame => hkey (Call.sameAs_iff.mp hsame).symm, Option.or_none]
        exact hold c
  steps := h.steps
  outSize := by rw [IndexedGraph.addVertex, Array.size_push, Array.size_push, h.outSize]
  inSize := by rw [IndexedGraph.addVertex, Array.size_push, Array.size_push, h.inSize]
  outgoing := fun v => (getD_push_nil _ v).trans (h.outgoing v)
  incoming := fun v => (getD_push_nil _ v).trans (h.incoming v)
  inside := fun e he => by
    rw [Array.size_push]
    exact ⟨Nat.lt_succ_of_lt (h.inside e he).1, Nat.lt_succ_of_lt (h.inside e he).2⟩

/-- An edge is entered between its ends, between which nothing was found before, and comes last in
the lists at both. -/
theorem Refines.addEdge (h : x.Refines g) {e : Edge R}
    (hinside : e.source < g.vertices.size ∧ e.target < g.vertices.size)
    (hnew : g.findEdge? e.source e.target = none) :
    (x.addEdge e).Refines { g with edges := g.edges.push e } where
  graph := by rw [IndexedGraph.addEdge, h.graph]
  calls := h.calls
  steps := fun a b => by
    have hold := h.steps
    rw [Graph.findEdge?, Array.findIdx?_push]
    simp only [IndexedGraph.findEdge?, IndexedGraph.addEdge, ExtTreeMap.getElem?_insert,
      LawfulEqCmp.compare_eq_iff_eq, h.graph]
    have hends : (e.source == a && e.target == b) = true ↔ (e.source, e.target) = (a, b) := by
      rw [Bool.and_eq_true, beq_iff_eq, beq_iff_eq, Prod.mk.injEq]
    -- The new edge is found under its own ends; under any other the index answers as before.
    by_cases heq : (e.source, e.target) = (a, b)
    · rw [if_pos heq, if_pos (hends.mpr heq)]
      obtain ⟨rfl, rfl⟩ := Prod.mk.inj heq
      exact (congrArg (Option.or · _) hnew).symm
    · rw [if_neg heq, if_neg fun hand => heq (hends.mp hand), Option.or_none]
      exact hold a b
  outSize := by rw [IndexedGraph.addEdge, Array.size_modify, h.outSize]
  inSize := by rw [IndexedGraph.addEdge, Array.size_modify, h.inSize]
  outgoing := fun v => by
    rw [Graph.numbers_outgoing, Graph.numbers_push g e fun p => p.1 == v, ← Graph.numbers_outgoing,
      ← h.outgoing, ← h.graph]
    exact getD_modify_append (h.outSize ▸ hinside.1) v _
  incoming := fun v => by
    rw [Graph.numbers_incoming, Graph.numbers_push g e fun p => p.2 == v, ← Graph.numbers_incoming,
      ← h.incoming, ← h.graph]
    exact getD_modify_append (h.inSize ▸ hinside.2) v _
  inside := fun e' he' => by
    rcases Array.mem_push.mp he' with he' | rfl
    · exact h.inside e' he'
    · exact hinside

/-- What leaves the vertices what they stand for, and the edges where they lead, needs no change of
what is looked up. -/
theorem Refines.onArenas (h : x.Refines g) (f : Graph R → Graph R) (hkinds : (f g).kinds = g.kinds)
    (hends : (f g).ends = g.ends) : (x.onArenas f).Refines (f g) := by
  have hsize : (f g).vertices.size = g.vertices.size := by
    rw [← Graph.length_kinds, ← Graph.length_kinds, hkinds]
  exact
    { graph := congrArg f h.graph
      -- Searching reads the kinds of vertices and the ends of edges, and nothing else.
      calls := fun c => (h.calls c).trans (by rw [Graph.findCall?_eq, Graph.findCall?_eq, hkinds])
      steps := fun a b => (h.steps a b).trans (by rw [Graph.findEdge?_eq, Graph.findEdge?_eq, hends])
      outSize := h.outSize.trans hsize.symm
      inSize := h.inSize.trans hsize.symm
      outgoing := fun v => (h.outgoing v).trans (by
        rw [Graph.numbers_outgoing, Graph.numbers_outgoing, hends])
      incoming := fun v => (h.incoming v).trans (by
        rw [Graph.numbers_incoming, Graph.numbers_incoming, hends])
      inside := fun e he => by
        have hmem : e.ends ∈ (f g).ends := List.mem_map_of_mem (Array.mem_toList_iff.mpr he)
        rw [hends] at hmem
        obtain ⟨e', he', heq⟩ := List.mem_map.mp hmem
        obtain ⟨hsource, htarget⟩ := Prod.mk.inj heq
        rw [← hsource, ← htarget, hsize]
        exact h.inside e' (Array.mem_toList_iff.mp he') }

/-- An operation that keeps the layout of the graph need not touch what is kept beside it. -/
theorem Refines.of_sameLayout (h : x.Refines g) {f : Graph R → Graph R}
    (hsame : Graph.SameLayout g (f g)) : (x.onArenas f).Refines (f g) :=
  h.onArenas f hsame.kinds hsame.ends

/-! ### Operations -/

/-- A call gets the vertex that it gets in the graph. -/
theorem Refines.ensureCall (h : x.Refines g) (c : Call) :
    Beside (x.ensureCall c) (g.ensureCall c) := by
  rw [IndexedGraph.ensureCall, Graph.ensureCall, h.calls]
  cases hfind : g.findCall? c with
  | some v => exact ⟨h, rfl⟩
  | none =>
    -- What was not found is the only call that the new vertex stands for.
    refine ⟨?_, by rw [h.graph]⟩
    have hnew := h.addVertex (y := .new (.query c) g.partitions)
      fun c' hc' => VertexKind.query.inj hc' ▸ hfind
    rwa [← h.graph] at hnew ⊢

/-- The sentinels stand for no calls, so that they can be appended to any graph. -/
theorem Refines.pushSentinels (h : x.Refines g) : x.pushSentinels.Refines g.pushSentinels := by
  have hpush : ∀ {x : IndexedGraph R} {g : Graph R} (kind : VertexKind), kind.call? = none →
      x.Refines g → (x.pushVertex kind).Refines (g.pushVertex kind) := by
    intro x g kind hcall h
    obtain rfl := h.graph
    refine h.addVertex fun c hc => ?_
    rw [show kind = .query c from hc] at hcall
    cases hcall
  obtain rfl := h.graph
  have hall := hpush .abort rfl (hpush .commit rfl (hpush .start rfl h))
  let n := x.vertices.size
  exact hall.onArenas (fun g => { g with sentinels := some ⟨n, n + 1, n + 2⟩ }) rfl rfl

/-- Sentinels are vertices that stand for no call, so that they go into no index but get lists of
their own. -/
theorem Refines.insertSentinels (h : x.Refines g) :
    Alike Refines x.insertSentinels g.insertSentinels := by
  rw [IndexedGraph.insertSentinels, Graph.insertSentinels, h.graph]
  split
  · exact .error _
  · exact .ok h.pushSentinels

/-- Fresh graphs are created alike. -/
theorem refines_fresh (procedure : ProcedureId) (base partitions : Nat) :
    (fresh procedure base partitions : IndexedGraph R).Refines (.fresh procedure base partitions) :=
  (refines_bare procedure base partitions).pushSentinels

/-- An indexed graph with the vertex of a call and its measured time, before the step to it is
counted. -/
def prepared (x : IndexedGraph R) (c : Call) (q : Query) : IndexedGraph R :=
  match q.elapsed with
  | some nanos => (x.ensureCall c).1.onArenas fun g => g.addTime (x.ensureCall c).2 nanos
  | none => (x.ensureCall c).1

/-- Preparing a query finds or creates its vertex alike. -/
theorem Refines.prepared (h : x.Refines g) (c : Call) (q : Query) :
    (x.prepared c q).Refines (g.prepared c q) := by
  obtain ⟨hcall, hvertex⟩ := h.ensureCall c
  rw [IndexedGraph.prepared, Graph.prepared, hvertex]
  cases q.elapsed with
  | none => exact hcall
  | some nanos => exact hcall.of_sameLayout (Graph.sameLayout_addTime _ _ nanos)

/-- Hits do not change what vertices stand for. -/
theorem kinds_hitVertex (g : Graph R) (v : Nat) : (g.hitVertex v).kinds = g.kinds :=
  List.ext_getElem? fun u => by
    rw [Graph.getElem?_kinds, Graph.getElem?_kinds]
    exact Graph.kind?_modify (f := fun x => { x with windowHits := x.windowHits + 1 })
      (fun _ => rfl) v u

section Recording

variable [Zero R]

/-- A step between vertices gets the edge that it gets in the graph. -/
theorem Refines.ensureEdge? (h : x.Refines g) {a b : Nat} (ha : a < g.vertices.size)
    (hb : b < g.vertices.size) : ∃ y, x.ensureEdge? a b = .ok y ∧ Beside y (g.ensureEdge a b) := by
  rw [IndexedGraph.ensureEdge?, Graph.ensureEdge, h.steps]
  cases hfind : g.findEdge? a b with
  | some i => exact ⟨(x, i), rfl, h, rfl⟩
  | none =>
    dsimp only
    rw [if_pos ⟨h.outSize ▸ ha, h.inSize ▸ hb⟩]
    exact ⟨_, rfl, h.addEdge (e := ⟨a, b, 0, 0, 0⟩) ⟨ha, hb⟩ hfind, by rw [h.graph]⟩

/-- Outside the vertices no edge is found, as none dangles, and there is no list to enter it in. -/
theorem Refines.ensureEdge?_error (h : x.Refines g) {a b : Nat}
    (hout : ¬ (a < g.vertices.size ∧ b < g.vertices.size)) :
    x.ensureEdge? a b = .error .outOfBounds := by
  have hfind : g.findEdge? a b = none := Array.findIdx?_eq_none_iff.mpr fun e he => by
    refine Bool.eq_false_iff.mpr fun hends => hout ?_
    obtain ⟨hsource, htarget⟩ := Bool.and_eq_true_iff.mp hends
    rw [← beq_iff_eq.mp hsource, ← beq_iff_eq.mp htarget]
    exact h.inside e he
  rw [IndexedGraph.ensureEdge?, h.steps, hfind]
  dsimp only
  rw [h.outSize, h.inSize, if_neg hout]

/-- A step between vertices is counted as in the graph. -/
theorem Refines.link (h : x.Refines g) {a b : Nat} (ha : a < g.vertices.size)
    (hb : b < g.vertices.size) : ∃ y, x.link? a b = .ok y ∧ Beside y (g.link a b) := by
  obtain ⟨⟨x', i⟩, hensure, hrefines, rfl⟩ := h.ensureEdge? ha hb
  have hhit := hrefines.onArenas (fun g' => (g'.hitEdge (g.ensureEdge a b).2).hitVertex a)
    (kinds_hitVertex _ a) (Graph.ends_modify _ _)
  refine ⟨_, by rw [IndexedGraph.link?, Outcome.bind_of_ok hensure]; rfl, ?_, rfl⟩
  rw [Graph.link, hhit.graph]
  dsimp only
  split
  · exact hhit.onArenas (fun g' => g'.hitVertex b) (kinds_hitVertex _ b) rfl
  · exact hhit

/-- A step is counted, or stops for want of a vertex, as in the graph. -/
theorem Refines.link? (h : x.Refines g) (a b : Nat) : Alike Beside (x.link? a b) (g.link? a b) := by
  rw [Graph.link?]
  split
  case isTrue hlt =>
    obtain ⟨y, hlink, hbeside⟩ := h.link hlt.1 hlt.2
    rw [hlink]
    exact .ok hbeside
  case isFalse hout =>
    rw [IndexedGraph.link?, h.ensureEdge?_error hout]
    exact .error _

/-- A step to the vertex of a call, as one chain: prepare the query, link to its vertex, and from
there to ABORT if it aborted. -/
theorem advance_eq (x : IndexedGraph R) (u : Nat) (c : Call) (q : Query) :
    x.advance u c q = ((x.prepared c q).link? u (x.ensureCall c).2).bind fun r =>
      if q.aborted then r.1.requireSentinels.bind fun s =>
        (r.1.link? (x.ensureCall c).2 s.abort).bind fun r =>
          .ok (r.1, ⟨(x.ensureCall c).2, some s.abort⟩)
      else .ok (r.1, ⟨(x.ensureCall c).2, none⟩) := by
  rw [advance, prepared]
  cases q.elapsed with
  | none => rfl
  | some nanos => rfl

/-- A call is recorded as in the graph. There the step to ABORT is taken without a check; here it has
to find its lists, and does. -/
theorem Refines.advance (h : x.Refines g) (hg : g.Initialized s) (u : Nat) (c : Call) (q : Query) :
    Alike Beside (x.advance u c q) (g.advance u c q) := by
  have hsize := Nat.le_trans (Graph.ensureCall_vertex g c).1 (Graph.sameHits_prepared g c q).size
  rw [Graph.advance_eq, advance_eq, (h.ensureCall c).2]
  generalize (g.ensureCall c).2 = v at hsize
  refine ((h.prepared c q).link? u v).bind fun {a b} hlink hab => ?_
  have hrecording := Graph.recording_link? hlink
  have hinit := hrecording.initialized (hg.prepared c q)
  split
  case isFalse => exact .ok ⟨hab.1, rfl⟩
  case isTrue =>
    have hv := Nat.lt_of_lt_of_le hsize hrecording.grows.size
    obtain ⟨y, hlink', hlinked, _⟩ := hab.1.link hv (Graph.lt_size hinit.abort)
    rw [hab.1.graph, hinit.requireSentinels_eq]
    dsimp only [Except.bind]
    rw [hlink']
    exact .ok ⟨hlinked, rfl⟩

variable {p : Procedure} {r : Router}

/-- A query is recorded, or cannot be resolved, as in the graph. A fault comes out as the same
fault, and an error as the same error. -/
theorem Refines.observe (h : x.Refines g) (hg : g.Initialized s) (u : Nat) (q : Query)
    (called : List StatementId) :
    Alike (Alike Beside) (x.observe u q p r called) (g.observe u q p r called) := by
  rw [IndexedGraph.observe, Graph.observe, h.graph]
  cases q.resolve p r g.base called with
  | error e => exact .ok (.error e)
  -- Resolving reads the base partition only, so that both record the same call.
  | ok c =>
    have hadvance := h.advance hg u c q
    dsimp only
    generalize x.advance u c q = y at hadvance ⊢
    generalize g.advance u c q = z at hadvance ⊢
    cases hadvance with
    | error f => exact .error f
    | @ok a b hab =>
      obtain ⟨x', step⟩ := a
      obtain ⟨g', step'⟩ := b
      obtain ⟨hrefines, rfl⟩ := hab
      exact .ok (.ok ⟨hrefines, rfl⟩)

/-- Queries are recorded up to the first that aborts or cannot be resolved, as in the graph. Where
they are broken off is part of what both answer, so that a trace rejected midway leaves the lists
and indexes right as well. -/
theorem Refines.replayQueries (h : x.Refines g) (hg : g.Initialized s) (u : Nat)
    (called : List StatementId) (qs : List Query) :
    Alike Beside (IndexedGraph.replayQueries p r x u called qs)
      (Graph.replayQueries p r g u called qs) := by
  -- Each query starts where the one before led, so graphs, vertex and calls are general.
  induction qs generalizing x g u called with
  | nil => exact .ok ⟨h, rfl⟩
  | cons q qs ih =>
    have hobserve := h.observe (p := p) (r := r) hg u q called
    rw [IndexedGraph.replayQueries, Graph.replayQueries]
    generalize x.observe u q p r called = y at hobserve ⊢
    generalize hz : g.observe u q p r called = z at hobserve ⊢
    rcases hobserve with f | ⟨e | @⟨⟨x₁, step, called'⟩, ⟨g₁, step', called''⟩, hrefines, heq⟩⟩
    · exact .error f
    · exact .ok ⟨h, rfl⟩
    obtain ⟨rfl, rfl⟩ := Prod.mk.inj heq
    obtain ⟨links, hrecording, _⟩ := hg.recording_observe hz
    dsimp only
    split
    · exact .ok ⟨hrefines, rfl⟩
    have hrest := ih hrefines (hrecording.initialized hg) step.vertex called'
    generalize IndexedGraph.replayQueries p r x₁ step.vertex called' qs = y at hrest ⊢
    generalize Graph.replayQueries p r g₁ step.vertex called' qs = z at hrest ⊢
    rcases hrest with f | @⟨⟨x₂, visited, result⟩, ⟨g₂, visited', result'⟩, hrefines', heq'⟩
    · exact .error f
    · obtain ⟨rfl, rfl⟩ := Prod.mk.inj heq'
      exact .ok ⟨hrefines', rfl⟩

/-- A trace is recorded as in the graph, whether it is accepted or not. The one thing that the graph
knows and the indexes do not is that the last vertex visited exists, from which there is a step to
COMMIT or ABORT. -/
theorem Refines.replay (h : x.Refines g) (hg : g.Initialized s) (t : Trace) :
    Alike Beside (x.replay t p r) (g.replay t p r) := by
  rw [IndexedGraph.replay, Graph.replay, h.graph, hg.requireSentinels_eq]
  refine (h.replayQueries hg s.start [] t.queries).bind fun {a b} hqueries hab => ?_
  obtain ⟨x₁, visited, result⟩ := a
  obtain ⟨g₁, visited', result'⟩ := b
  obtain ⟨hrefines, heq⟩ := hab
  obtain ⟨rfl, rfl⟩ := Prod.mk.inj heq
  have hcounted : ∀ {x : IndexedGraph R} {g : Graph R}, x.Refines g →
      (x.onArenas fun g => g.recordTxn).Refines g.recordTxn := fun h =>
    h.of_sameLayout (Graph.sameLayout_recordTxn _)
  rcases result with e | _ | _
  · exact .ok ⟨hrefines, rfl⟩
  · -- The path has come to a vertex of the graph, from which there is a step to a sentinel.
    obtain ⟨links, hrecording, _, hend⟩ := hg.recording_replayQueries
      (Graph.isTerminal_start hg) (Graph.lt_size hg.start) hqueries
    have hinit := hrecording.initialized hg
    have hlast := (hend rfl _ (List.getLast?_eq_some_getLast (List.cons_ne_nil _ _))).2
    rw [List.getLast_eq_getLastD] at hlast
    have hterminal : (if t.aborted then s.abort else s.commit) < g₁.vertices.size := by
      split
      · exact Graph.lt_size hinit.abort
      · exact Graph.lt_size hinit.commit
    obtain ⟨y, hlink, hlinked, _⟩ := hrefines.link hlast hterminal
    dsimp only
    rw [List.getLast_eq_getLastD, hlink]
    exact .ok ⟨hcounted hlinked, rfl⟩
  · exact .ok ⟨hcounted hrefines, rfl⟩

end Recording

/-! ### Deriving and loading -/

/-- Deriving writes tables and the probabilities of edges only. -/
theorem Refines.derive [Scalar R] (h : x.Refines g) (hg : g.Initialized s) :
    Alike Refines x.derive g.derive := by
  rw [IndexedGraph.derive, h.graph]
  cases hderive : g.derive with
  | error f => exact .error f
  | ok g' => exact .ok (h.of_sameLayout (f := fun _ => g') (hg.derive_same hderive).2.sameLayout)

/-- Folding the window before that writes counters. -/
theorem Refines.recompute [Scalar R] (h : x.Refines g) (hg : g.Initialized s) :
    Alike Refines x.recompute g.recompute :=
  (h.of_sameLayout (Graph.sameLayout_foldWindow g)).derive hg.foldWindow

/-- A stored vertex is refused or appended as in the graph. A second vertex of one call is refused,
which is what `addVertex` needs to know of a call. -/
theorem Refines.loadVertex (h : x.Refines g) (p : Procedure) (entry : VertexRecord × Nat) :
    Alike Refines (x.loadVertex p entry) (g.loadVertex p entry) := by
  have hpush : (∀ c, entry.1.kind = .query c → g.findCall? c = none) →
      (x.pushRecord entry.1).Refines (g.pushRecord entry.1) := fun hnew => by
    obtain rfl := h.graph
    exact h.addVertex hnew
  rw [IndexedGraph.loadVertex, Graph.loadVertex, h.graph]
  cases hkind : entry.1.kind with
  | query c =>
    dsimp only
    rw [h.calls]
    split
    · exact .error _
    split
    · exact .error _
    case isFalse hnone =>
      refine .ok (hpush fun c' hc' => ?_)
      obtain rfl := VertexKind.query.inj (hkind.symm.trans hc')
      exact Option.not_isSome_iff_eq_none.mp hnone
  -- Sentinels are not looked up by call; each may be there once.
  | start | commit | abort =>
    dsimp only
    split
    · exact .error _
    · exact .ok (hpush fun c hc => by cases hkind.symm.trans hc)

/-- A stored edge is refused or appended as in the graph. -/
theorem Refines.loadEdge [Zero R] (h : x.Refines g) (e : EdgeRecord) :
    Alike Refines (x.loadEdge e) (g.loadEdge e) := by
  rw [IndexedGraph.loadEdge, Graph.loadEdge, h.graph, h.steps]
  split
  · exact .error _
  case isFalse hinside =>
    split
    · exact .error _
    case isFalse hnone =>
      exact .ok (h.addEdge (e := e.edge) (by simpa [EdgeRecord.edge] using hinside)
        (Option.not_isSome_iff_eq_none.mp hnone))

/-- What is built of a record is as the graph that is built of it, and is refused with the same
error. -/
theorem refines_build [Scalar R] (r : GraphRecord) (p : Procedure) :
    Alike Refines (build r p : Except DocumentError (IndexedGraph R)) (r.build p) := by
  have hvertices : Alike Refines
      (r.vertices.zipIdx.foldlM (loadVertex p) (bare p.id r.base r.partitions : IndexedGraph R))
      (r.vertices.zipIdx.foldlM (Graph.loadVertex p) (Graph.bare p.id r.base r.partitions)) :=
    .foldlM (fun entry h => h.loadVertex p entry) _ (refines_bare p.id r.base r.partitions)
  rw [build, GraphRecord.build]
  generalize List.foldlM (loadVertex p) _ _ = y at hvertices ⊢
  generalize List.foldlM (Graph.loadVertex p) _ _ = z at hvertices ⊢
  cases hvertices with
  | error e => exact .error e
  | @ok x g h =>
  dsimp only
  -- The vertices were loaded alike, so that the sentinels are looked for among the same vertices.
  rw [h.graph]
  cases g.findSentinels? with
  | none => exact .error _
  | some s =>
  have hplaced := h.onArenas (fun g => { g with sentinels := some s }) rfl rfl
  have hedges : Alike Refines
      (r.edges.foldlM loadEdge (x.onArenas fun g => { g with sentinels := some s }))
      (r.edges.foldlM Graph.loadEdge { g with sentinels := some s }) :=
    .foldlM (fun e h => h.loadEdge e) _ hplaced
  dsimp only
  generalize List.foldlM (loadEdge (R := R)) _ _ = y at hedges ⊢
  generalize List.foldlM (Graph.loadEdge (R := R)) _ _ = z at hedges ⊢
  cases hedges with
  | error e => exact .error e
  | ok h => exact .ok (h.onArenas (fun g => { g with txns := r.txns, windowTxns := 0 }) rfl rfl)

/-- What is loaded is as the graph that is loaded, and is refused with the same error. Building
fills lists and indexes entry by entry; deriving afterwards works on the vertices alone. -/
theorem refines_load [Scalar R] (r : GraphRecord) (c : Catalog) :
    Alike (Alike Refines) (load r c : Except Fault (Except Error (IndexedGraph R))) (r.load c) := by
  rw [load, GraphRecord.load]
  cases c.procedureNamed r.procedure with
  | error e => exact .ok (.error e)
  | ok p =>
  dsimp only
  split
  · exact .ok (.error _)
  have hbuild := refines_build (R := R) r p
  generalize (build r p : Except DocumentError (IndexedGraph R)) = y at hbuild ⊢
  generalize hz : (r.build p : Except DocumentError (Graph R)) = z at hbuild ⊢
  cases hbuild with
  | error e => exact .ok (.error _)
  | ok h =>
    -- Deriving leaves the graph of a well-formed record its layout.
    obtain ⟨s, hformed, rfl⟩ := GraphRecord.build_ok_iff.mp hz
    exact (h.derive (hformed.initialized p.id)).map fun h => .ok h

/-! ### Every operation -/

/-- The indexed graph after an operation, also one that broke off with an error. -/
def edit [Scalar R] (x : IndexedGraph R) : Graph.Edit → Except Fault (IndexedGraph R)
  | .sentinels => x.insertSentinels
  | .call c => .ok (x.ensureCall c).1
  | .link u v => (x.link? u v).map Prod.fst
  | .query u q p r called =>
    (x.observe u q p r called).map fun
      | .error _ => x
      | .ok (x, _) => x
  | .trace t p r => (x.replay t p r).map Prod.fst
  | .txn => .ok (x.onArenas fun g => g.recordTxn)
  | .reset => .ok (x.onArenas fun g => g.resetWindow)
  | .derive => x.derive
  | .recompute => x.recompute

/-- Every operation does to an indexed graph what it does to its graph. This is one case for each
operation, all of which have been dealt with above. -/
theorem Refines.edit [Scalar R] (h : x.Refines g) (hg : g.Initialized s) (e : Graph.Edit) :
    Alike Refines (x.edit e) (e.run g) := by
  cases e with
  | sentinels => exact h.insertSentinels
  | call c => exact .ok (h.ensureCall c).1
  | link u v => exact (h.link? u v).map And.left
  | query u q p r called =>
    refine (h.observe hg u q called).map fun {a b} hab => ?_
    cases hab with
    | error e => exact h
    | ok hab => exact hab.1
  | trace t p r => exact (h.replay hg t).map And.left
  | txn => exact .ok (h.of_sameLayout (Graph.sameLayout_recordTxn g))
  | reset => exact .ok (h.of_sameLayout (Graph.sameLayout_resetWindow g))
  | derive => exact h.derive hg
  | recompute => exact h.recompute hg

end IndexedGraph

end TxnPath
