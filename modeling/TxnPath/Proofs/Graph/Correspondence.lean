import TxnPath.Proofs.Graph.Account
import TxnPath.Proofs.Graph.Renaming

/-!
# `TxnPath.Proofs.Graph.Correspondence`: accounts determine a graph but for its numbers

What a graph holds after recomputing follows from what it accounts for, up to the numbers of vertices
and edges. Vertices of two graphs correspond that stand for the same (`Graph.Corresponds`). In graphs
that account for the same traces the paths then correspond, vertex by vertex, and with the paths the
steps that the hits count. What is measured was accounted for. The probabilities of edges are
quotients of hits. In the end one graph is the other renamed (`AccountsFor.renamed`).
-/

set_option autoImplicit false

namespace TxnPath

namespace Graph

variable {R : Type} {g g' : Graph R} {s : Sentinels} {p : Procedure} {visits : List Visit}
  {accounts : List Account} {paths paths' : List (List Nat)} {n u v : Nat} {σ : Nat → Nat}

/-! ### Vertices that stand for the same -/

/-- Every vertex of a graph is given one of another that stands for the same. -/
def Corresponds (σ : Nat → Nat) (g g' : Graph R) : Prop :=
  ∀ v < g.vertices.size, g'.kind? (σ v) = g.kind? v

/-- Where the same calls were made, vertices stand for the same. A vertex of the one graph
corresponds to the vertex of the other that stands for the same sentinel or call. -/
theorem Visited.corresponds (h : g.Visited visits) (h' : g'.Visited visits) :
    ∃ σ, Corresponds σ g g' := by
  have hvertex : ∀ v, ∃ w, v < g.vertices.size → g'.kind? w = g.kind? v := by
    intro v
    cases hv : g.kind? v with
    | none =>
      refine ⟨0, fun hlt => ?_⟩
      rw [← kind?_isSome, hv] at hlt
      cases hlt
    | some kind =>
      have hkind := (h.kinds kind).mp (mem_kinds_iff.mpr ⟨v, hv⟩)
      obtain ⟨w, hw⟩ := mem_kinds_iff.mp ((h'.kinds kind).mpr hkind)
      exact ⟨w, fun _ => hw⟩
  choose σ hσ using hvertex
  exact ⟨σ, hσ⟩

/-- A vertex and its counterpart stand for the same. -/
theorem Corresponds.kind? (h : Corresponds σ g g') (hv : v < g.vertices.size) :
    ∃ kind, g.kind? v = some kind ∧ g'.kind? (σ v) = some kind := by
  obtain ⟨kind, hkind⟩ := Option.isSome_iff_exists.mp (kind?_isSome.mpr hv)
  exact ⟨kind, hkind, (h v hv).trans hkind⟩

/-- No two vertices of a tidy graph have the same counterpart, since no two stand for the same. -/
theorem Corresponds.injective (h : Corresponds σ g g') (htidy : g.Tidy s) :
    ∀ u < g.vertices.size, ∀ v < g.vertices.size, σ u = σ v → u = v := by
  intro u hu v hv heq
  obtain ⟨kind, hkind, hkind'⟩ := h.kind? hu
  obtain ⟨kind', hv', hσv⟩ := h.kind? hv
  rw [heq, hσv] at hkind'
  cases hkind'
  exact htidy.kind?_inj hkind hv'

/-- In a tidy graph what the vertices stand for is listed without repetition. -/
theorem Tidy.nodup_kinds (h : g.Tidy s) : g.kinds.Nodup := by
  rw [List.nodup_iff_getElem?_ne_getElem?]
  intro u v huv hv heq
  rw [getElem?_kinds, getElem?_kinds] at heq
  rw [length_kinds, ← kind?_isSome] at hv
  obtain ⟨kind, hkind⟩ := Option.isSome_iff_exists.mp hv
  exact Nat.ne_of_lt huv (h.kind?_inj (heq.trans hkind) hkind)

/-- Where the same calls were made, there are as many vertices. -/
theorem Visited.size (h : g.Visited visits) (h' : g'.Visited visits) (htidy : g.Tidy s)
    (htidy' : g'.Tidy s) : g'.vertices.size = g.vertices.size := by
  have hperm : g'.kinds.Perm g.kinds :=
    (List.perm_ext_iff_of_nodup htidy'.nodup_kinds htidy.nodup_kinds).mpr fun kind =>
      (h'.kinds kind).trans (h.kinds kind).symm
  rw [← length_kinds, ← length_kinds, hperm.length_eq]

/-- The sentinels correspond. -/
theorem Corresponds.sentinels (h : Corresponds σ g g') (hinit : g.Initialized s)
    (htidy' : g'.Tidy s) : g'.sentinels = g.sentinels.map (Sentinels.rename σ) := by
  have hsame : ∀ {v kind}, g.kind? v = some kind → g'.kind? v = some kind → σ v = v :=
    fun hv hv' => htidy'.kind?_inj ((h _ (lt_size hv)).trans hv) hv'
  have hinit' := htidy'.initialized
  rw [hinit.placed, hinit'.placed, Option.map_some, Sentinels.rename, hsame hinit.start hinit'.start,
    hsame hinit.commit hinit'.commit, hsame hinit.abort hinit'.abort]

/-! ### Paths along the same accounts -/

/-- Renaming a path renames its steps. -/
theorem stepsOf_map (σ : Nat → Nat) (π : List Nat) :
    stepsOf (π.map σ) = (stepsOf π).map (Prod.map σ σ) := by
  rw [stepsOf, stepsOf, ← List.map_tail, List.zip_map]

/-- Two paths along one account correspond. -/
theorem Corresponds.along (h : Corresponds σ g g') (htidy' : g'.Tidy s) {π π' : List Nat}
    {a : Account} (hπ : g.Along π a) (hπ' : g'.Along π' a) : π' = π.map σ := by
  rw [Along] at hπ hπ'
  generalize a.course = kinds at hπ hπ'
  -- Vertex by vertex along the account, what is stood for leaves one vertex of the second graph.
  induction kinds generalizing π π' with
  | nil =>
    rw [List.map_eq_nil_iff.mp hπ, List.map_eq_nil_iff.mp hπ', List.map_nil]
  | cons kind kinds ih =>
    obtain ⟨v, π, rfl, hv, hπ⟩ := List.map_eq_cons_iff.mp hπ
    obtain ⟨v', π', rfl, hv', hπ'⟩ := List.map_eq_cons_iff.mp hπ'
    rw [List.map_cons, ih hπ hπ', htidy'.kind?_inj hv' ((h v (lt_size hv)).trans hv)]

/-- Paths that stand for the same accounts are one another renamed, path by path and vertex by
vertex. -/
theorem Corresponds.map_paths (h : Corresponds σ g g') (htidy' : g'.Tidy s)
    (hpaths : List.Forall₂ g.Along paths accounts)
    (hpaths' : List.Forall₂ g'.Along paths' accounts) : paths' = paths.map (List.map σ) := by
  induction hpaths generalizing paths' with
  | nil =>
    cases hpaths'
    rfl
  | cons hπ _ ih =>
    cases hpaths' with
    | cons hπ' hrest' => rw [List.map_cons, ih hrest', h.along htidy' hπ hπ']

/-- Paths that correspond take steps that correspond. -/
theorem flatMap_stepsOf_map (σ : Nat → Nat) (paths : List (List Nat)) :
    (paths.map (List.map σ)).flatMap stepsOf = (paths.flatMap stepsOf).map (Prod.map σ σ) := by
  rw [List.flatMap_map, List.map_flatMap]
  exact List.flatMap_congr fun π _ => stepsOf_map σ π

/-! ### Hits of corresponding steps -/

section Hits

variable {steps : List (Nat × Nat)}

/-- Steps are taken along edges, so that they lead from vertex to vertex. -/
theorem Tallied.inside (h : g.Tallied steps) (hinit : g.Initialized s) :
    ∀ p ∈ steps, p.1 < g.vertices.size ∧ p.2 < g.vertices.size := by
  intro p hp
  obtain ⟨e, he, rfl⟩ := List.mem_map.mp ((h.covered p).mp hp)
  exact hinit.edges e (Array.mem_toList_iff.mp he)

/-- A vertex is hit as often as the one that corresponds to it. Both counts are of steps, and a step
of the one graph hits a vertex if and only if the step that corresponds to it hits the other. -/
theorem Corresponds.vertexHits (h : Corresponds σ g g') (htidy : g.Tidy s) (hg : g.Tallied steps)
    (hg' : g'.Tallied (steps.map (Prod.map σ σ))) (hv : v < g.vertices.size) :
    g'.vertexHits (σ v) = g.vertexHits v := by
  have hinside := hg.inside htidy.initialized
  have hcount : ∀ f : Nat × Nat → Nat, (∀ p ∈ steps, f p < g.vertices.size) →
      (∀ p, f (Prod.map σ σ p) = σ (f p)) →
      (steps.map (Prod.map σ σ)).countP (fun p => f p == σ v) = steps.countP (fun p => f p == v) := by
    intro f hf hσ
    rw [List.countP_map]
    refine List.countP_congr fun p hp => ?_
    rw [Function.comp_apply, beq_iff_eq, beq_iff_eq, hσ]
    exact ⟨fun heq => h.injective htidy _ (hf p hp) v hv heq, congrArg σ⟩
  rw [hg'.vertex, hg.vertex, isTerminal_eq, isTerminal_eq, h v hv,
    hcount Prod.fst (fun p hp => (hinside p hp).1) fun _ => rfl,
    hcount Prod.snd (fun p hp => (hinside p hp).2) fun _ => rfl]

/-- A step is taken as often as the one that corresponds to it. -/
theorem Corresponds.count (h : Corresponds σ g g') (htidy : g.Tidy s) (hg : g.Tallied steps)
    {q : Nat × Nat} (hq : q ∈ steps) :
    (steps.map (Prod.map σ σ)).count (Prod.map σ σ q) = steps.count q := by
  have hinside := hg.inside htidy.initialized
  rw [List.count_eq_countP, List.count_eq_countP, List.countP_map]
  refine List.countP_congr fun p hp => ?_
  rw [Function.comp_apply, beq_iff_eq, beq_iff_eq]
  refine ⟨fun heq => ?_, congrArg _⟩
  obtain ⟨hfst, hsnd⟩ := Prod.mk.inj heq
  exact Prod.ext (h.injective htidy _ (hinside p hp).1 _ (hinside q hq).1 hfst)
    (h.injective htidy _ (hinside p hp).2 _ (hinside q hq).2 hsnd)

variable [Scalar R]

/-- The edge of a step that was taken, once its probability is derived. -/
def edgeOfStep (g : Graph R) (steps : List (Nat × Nat)) (q : Nat × Nat) : Edge R where
  source := q.1
  target := q.2
  totalHits := steps.count q
  windowHits := 0
  probability :=
    if 0 < g.vertexHits q.1 then Scalar.ratio (steps.count q) (g.vertexHits q.1) else 0

/-- The steps determine the edges, but for their order. -/
theorem Derived.edges_eq (h : g.Derived) (hg : g.Tallied steps) :
    g.ends.map (g.edgeOfStep steps) = g.edges.toList := by
  rw [ends, List.map_map]
  refine (List.map_congr_left fun e he => ?_).trans (List.map_id _)
  have he := Array.mem_toList_iff.mp he
  have hwindow := h.folded.edges e he
  have htotal : steps.count e.ends = e.totalHits := by
    rw [← hg.edge e he, Edge.hits, hwindow, Nat.add_zero]
  have hweight := h.weight e he
  rw [hg.edge e he] at hweight
  show (⟨e.source, e.target, steps.count e.ends, 0, if 0 < g.vertexHits e.source then
    Scalar.ratio (steps.count e.ends) (g.vertexHits e.source) else 0⟩ : Edge R) = e
  rw [← hweight, htotal, ← hwindow]

/-- The edges correspond. There is one for each step that was taken in either graph, and the steps
correspond; what an edge counts and how probable it is follows from how often its step was taken. -/
theorem Corresponds.edges (h : Corresponds σ g g') (htidy : g.Tidy s) (htidy' : g'.Tidy s)
    (hg : g.Tallied steps) (hg' : g'.Tallied (steps.map (Prod.map σ σ))) (hd : g.Derived)
    (hd' : g'.Derived) : (g.edges.toList.map (Edge.rename σ)).Perm g'.edges.toList := by
  have hsteps : ∀ q ∈ g.ends, q ∈ steps := fun q hq => (hg.covered q).mpr hq
  have hinside := hg.inside htidy.initialized
  -- Neither graph has two edges between the same vertices.
  have hends : (g.ends.map (Prod.map σ σ)).Perm g'.ends := by
    have hnodup : (g.ends.map (Prod.map σ σ)).Nodup := by
      refine htidy.distinct.map_on fun q hq q' hq' heq => ?_
      obtain ⟨hfst, hsnd⟩ := Prod.mk.inj heq
      have hlt := hinside q (hsteps q hq)
      have hlt' := hinside q' (hsteps q' hq')
      exact Prod.ext (h.injective htidy _ hlt.1 _ hlt'.1 hfst)
        (h.injective htidy _ hlt.2 _ hlt'.2 hsnd)
    refine (List.perm_ext_iff_of_nodup hnodup htidy'.distinct).mpr fun q => ?_
    rw [show q ∈ g'.ends ↔ _ from (hg'.covered q).symm, List.mem_map, List.mem_map]
    exact exists_congr fun q => and_congr_left fun _ => (hg.covered q).symm
  have hedge : ∀ q ∈ g.ends, (g.edgeOfStep steps q).rename σ
      = g'.edgeOfStep (steps.map (Prod.map σ σ)) (Prod.map σ σ q) := by
    intro q hq
    rw [edgeOfStep, edgeOfStep, h.count htidy hg (hsteps q hq),
      show (Prod.map σ σ q).1 = σ q.1 from rfl,
      h.vertexHits htidy hg hg' (hinside q (hsteps q hq)).1]
    rfl
  have hmap := hends.map (g'.edgeOfStep (steps.map (Prod.map σ σ)))
  rw [List.map_map] at hmap
  rw [← hd.edges_eq hg, ← hd'.edges_eq hg', List.map_map]
  exact List.map_congr_left hedge ▸ hmap

/-- The vertices correspond, with all that is counted at them. Clocks and hits are told by the
visits, which are the same on both sides. -/
theorem Corresponds.vertices (h : Corresponds σ g g') (htidy : g.Tidy s) (hvisited : g.Visited visits)
    (hvisited' : g'.Visited visits) (hg : g.Tallied steps)
    (hg' : g'.Tallied (steps.map (Prod.map σ σ))) (hd : g.Derived) (hd' : g'.Derived) :
    ∀ v < g.vertices.size,
      (g'.vertices[σ v]?).map Vertex.counters = (g.vertices[v]?).map Vertex.counters := by
  intro v hv
  obtain ⟨kind, hkind, hkind'⟩ := h.kind? hv
  obtain ⟨x, hx, _⟩ := Option.map_eq_some_iff.mp hkind
  obtain ⟨y, hy, _⟩ := Option.map_eq_some_iff.mp hkind'
  have hclock : (g'.vertices[σ v]?).map Vertex.clock = (g.vertices[v]?).map Vertex.clock := by
    rw [hvisited'.clock, hvisited.clock, h v hv]
  -- All hits are totals, as nothing was counted since recomputing.
  have hwindow := hd.folded.vertices x (Array.mem_of_getElem? hx)
  have hwindow' := hd'.folded.vertices y (Array.mem_of_getElem? hy)
  have hhits := h.vertexHits htidy hg hg' hv
  rw [Graph.vertexHits, Graph.vertexHits, hx, hy, Option.elim_some, Option.elim_some, Vertex.hits,
    Vertex.hits, hwindow, hwindow'] at hhits
  rw [hx, hy, Option.map_some, Option.map_some, Option.some.injEq] at hclock ⊢
  obtain ⟨hkind, hnanos, hsamples⟩ : y.kind = x.kind ∧ y.execNanos = x.execNanos
      ∧ y.execSamples = x.execSamples := by simpa [Vertex.clock] using hclock
  rw [Vertex.counters, Vertex.counters, hkind, hnanos, hsamples, Nat.add_right_cancel hhits, hwindow,
    hwindow']

/-- Of two graphs that account for the same traces, with their probabilities derived, one is the
other renamed. -/
theorem AccountsFor.renamed (h : g.AccountsFor s p accounts) (h' : g'.AccountsFor s p accounts)
    (hd : g.Derived) (hd' : g'.Derived) (hkey : g'.key = g.key)
    (hpartitions : g'.partitions = g.partitions) : ∃ σ, Renamed σ g g' := by
  obtain ⟨paths, hrecorded, halong⟩ := h.paths
  obtain ⟨paths', hrecorded', halong'⟩ := h'.paths
  obtain ⟨σ, hσ⟩ := h.visited.corresponds h'.visited
  obtain rfl := hσ.map_paths h'.tidy halong halong'
  have hg := hrecorded.tallied
  have hg' := hrecorded'.tallied
  rw [flatMap_stepsOf_map] at hg'
  exact ⟨σ, hkey, hpartitions, hrecorded'.txns.trans hrecorded.txns.symm,
    hd'.folded.txns.trans hd.folded.txns.symm, h.visited.size h'.visited h.tidy h'.tidy,
    hσ.injective h.tidy, hσ.vertices h.tidy h.visited h'.visited hg hg' hd hd',
    hσ.sentinels h.tidy.initialized h'.tidy, hσ.edges h.tidy h'.tidy hg hg' hd hd'⟩

end Hits

end Graph

end TxnPath
