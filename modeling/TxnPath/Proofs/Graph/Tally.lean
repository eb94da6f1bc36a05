import Mathlib.Data.List.Perm.Basic
import TxnPath.Proofs.Graph.Derive

/-!
# `TxnPath.Proofs.Graph.Tally`: hits count steps

A path is a list of vertices, and its steps are the pairs that follow one another
(`stepsOf`). `Graph.Tallied` says that the hits of a graph, in both windows together, are
those of a list of steps: there is one edge per step that was taken, hit as often as the step
was taken; a vertex is hit once per step that leaves it, and at COMMIT and ABORT, which
nothing leaves, once per step that enters it.

A link is one more step (`Tallied.link`), whatever steps there were before. Everything else
that is done to a graph leaves the hits as they are (`SameHits`), recomputing included: it only
moves them from one window to the other.
-/

set_option autoImplicit false

namespace TxnPath

variable {R : Type}

/-- The hits of a vertex, in both windows together. -/
def Vertex.hits (x : Vertex R) : Nat := x.totalHits + x.windowHits

/-- What a vertex stands for, and how often it was hit. -/
def Vertex.tally (x : Vertex R) : VertexKind × Nat := (x.kind, x.hits)

/-- The hits of an edge, in both windows together. -/
def Edge.hits (e : Edge R) : Nat := e.totalHits + e.windowHits

/-- The vertices that an edge leads from and to. -/
def Edge.ends (e : Edge R) : Nat × Nat := (e.source, e.target)

/-- Where an edge leads, and how often it was hit. -/
def Edge.tally (e : Edge R) : (Nat × Nat) × Nat := (e.ends, e.hits)

namespace Graph

/-! ### Steps of a path -/

/-- The pairs of vertices that follow one another on a path. -/
def stepsOf (π : List Nat) : List (Nat × Nat) := π.zip π.tail

/-- A path of two vertices or more begins with the step between the first two. -/
theorem stepsOf_cons_cons (u v : Nat) (π : List Nat) :
    stepsOf (u :: v :: π) = (u, v) :: stepsOf (v :: π) := rfl

/-- A vertex appended to a path adds one step at its end, which is how paths grow while they are
recorded. -/
theorem stepsOf_concat (π : List Nat) (u v : Nat) :
    stepsOf (π ++ [u] ++ [v]) = stepsOf (π ++ [u]) ++ [(u, v)] := by
  induction π with
  | nil => rfl
  | cons w π ih =>
    cases π with
    | nil => rfl
    | cons x π =>
      show (w, x) :: stepsOf (x :: π ++ [u] ++ [v]) = (w, x) :: stepsOf (x :: π ++ [u]) ++ [(u, v)]
      rw [ih]
      rfl

/-- Steps leave every vertex of a path but the last. -/
theorem map_fst_stepsOf (π : List Nat) : (stepsOf π).map Prod.fst = π.dropLast := by
  induction π with
  | nil => rfl
  | cons u π ih =>
    cases π with
    | nil => rfl
    | cons v π => rw [stepsOf_cons_cons, List.map_cons, ih]; rfl

/-- Steps enter every vertex of a path but the first. -/
theorem map_snd_stepsOf (π : List Nat) : (stepsOf π).map Prod.snd = π.tail :=
  List.map_snd_zip (by simp)

/-- Every vertex of a path is left once for each time it stands there, except at its end. -/
theorem countP_fst_stepsOf (π : List Nat) (v : Nat) :
    (stepsOf π).countP (fun p => p.1 == v) = π.dropLast.count v := by
  rw [← map_fst_stepsOf, List.count_eq_countP, List.countP_map]
  rfl

/-- Every vertex is entered once for each time it stands there, except at its beginning. -/
theorem countP_snd_stepsOf (π : List Nat) (v : Nat) :
    (stepsOf π).countP (fun p => p.2 == v) = π.tail.count v := by
  rw [← map_snd_stepsOf, List.count_eq_countP, List.countP_map]
  rfl

/-! ### What a link does to the hits -/

variable {g g' : Graph R} {s : Sentinels} {a b v : Nat}

/-- The hits of the vertex at a position, in both windows together. -/
def vertexHits (g : Graph R) (v : Nat) : Nat := (g.vertices[v]?).elim 0 Vertex.hits

/-- Whether a vertex is terminal is told by its kind. -/
theorem isTerminal_eq (g : Graph R) (v : Nat) :
    g.isTerminal v = (g.kind? v).any VertexKind.isTerminal := by
  rw [isTerminal, kind?, Option.any_map]

/-- Vertices of the same kind are terminal alike, whatever else has happened to their graphs. -/
theorem isTerminal_congr (h : g'.kind? v = g.kind? v) : g'.isTerminal v = g.isTerminal v := by
  rw [isTerminal_eq, isTerminal_eq, h]

/-- A hit is one more at its vertex, and at no other. -/
theorem vertexHits_hitVertex (h : a < g.vertices.size) (v : Nat) :
    (g.hitVertex a).vertexHits v = g.vertexHits v + if v = a then 1 else 0 := by
  rw [vertexHits, vertexHits, hitVertex, Array.getElem?_modify]
  by_cases hv : v = a
  · subst hv
    rw [if_pos rfl, if_pos rfl, Array.getElem?_eq_getElem h]
    rfl
  · rw [if_neg (Ne.symm hv), if_neg hv]
    rfl

/-- Looking up an edge, or adding one, does not touch the vertices. -/
theorem vertices_ensureEdge [Zero R] (g : Graph R) (a b : Nat) :
    (g.ensureEdge a b).1.vertices = g.vertices := by
  unfold ensureEdge
  split <;> rfl

/-- A hit does not change what a vertex stands for. -/
theorem kind?_hitVertex (g : Graph R) (a v : Nat) : (g.hitVertex a).kind? v = g.kind? v :=
  kind?_modify (f := fun x => { x with windowHits := x.windowHits + 1 }) (fun _ => rfl) a v

/-- A link keeps the vertices, with their kinds. -/
theorem kind?_link [Zero R] (g : Graph R) (a b v : Nat) : (g.link a b).1.kind? v = g.kind? v := by
  have hedge : ((g.ensureEdge a b).1.hitEdge (g.ensureEdge a b).2).kind? v = g.kind? v := by
    show (g.ensureEdge a b).1.vertices[v]?.map Vertex.kind = _
    rw [vertices_ensureEdge]
    rfl
  rw [link]
  dsimp only
  split
  · rw [kind?_hitVertex, kind?_hitVertex, hedge]
  · rw [kind?_hitVertex, hedge]

/-- Linking adds no vertex. -/
theorem size_link [Zero R] (g : Graph R) (a b : Nat) :
    (g.link a b).1.vertices.size = g.vertices.size := by
  rw [link]
  dsimp only
  split <;> simp [hitVertex, hitEdge, vertices_ensureEdge]

/-- Linking counts no transaction: that is done once the whole trace has been recorded. -/
theorem txns_link [Zero R] (g : Graph R) (a b : Nat) : (g.link a b).1.txns = g.txns := by
  have hedge : (g.ensureEdge a b).1.txns = g.txns := by
    unfold ensureEdge
    split <;> rfl
  rw [link]
  dsimp only
  split <;> exact hedge

/-- A link hits its source, and its target if paths end there. Inner vertices are hit when they are
left, so that each visit is counted once. -/
theorem vertexHits_link [Zero R] (ha : a < g.vertices.size) (hb : b < g.vertices.size) (v : Nat) :
    (g.link a b).1.vertexHits v
      = g.vertexHits v + (if v = a then 1 else 0)
        + if v = b ∧ g.isTerminal b = true then 1 else 0 := by
  let m := (g.ensureEdge a b).1.hitEdge (g.ensureEdge a b).2
  have hsame : m.vertices = g.vertices := vertices_ensureEdge g a b
  have hsource : (m.hitVertex a).vertexHits v = g.vertexHits v + if v = a then 1 else 0 := by
    rw [vertexHits_hitVertex (hsame ▸ ha), vertexHits, hsame]
    rfl
  have hterminal : (m.hitVertex a).isTerminal b = g.isTerminal b := by
    refine isTerminal_congr ((kind?_hitVertex m a b).trans ?_)
    rw [kind?, hsame]
    rfl
  have hsize : (m.hitVertex a).vertices.size = g.vertices.size := by
    simp [hitVertex, hsame]
  show (if (m.hitVertex a).isTerminal b = true then (m.hitVertex a).hitVertex b
    else m.hitVertex a).vertexHits v = _
  -- The source is hit in any case; the target only if it is terminal, since nothing ever leaves it.
  rw [hterminal]
  by_cases hend : g.isTerminal b = true
  · rw [if_pos hend, vertexHits_hitVertex (hsize ▸ hb), hsource]
    simp [hend]
  · rw [if_neg hend, hsource]
    simp [hend]

/-- One more hit of one edge leaves the ends of all edges. -/
theorem ends_modify (edges : Array (Edge R)) (i : Nat) :
    (edges.modify i fun x => { x with windowHits := x.windowHits + 1 }).toList.map Edge.ends
      = edges.toList.map Edge.ends := by
  refine List.ext_getElem? fun j => ?_
  rw [List.getElem?_map, List.getElem?_map, Array.getElem?_toList, Array.getElem?_toList,
    Array.getElem?_modify]
  split
  · rw [Option.map_map]
    rfl
  · rfl

/-- What linking does to the edges: the one between the two is looked up, or added, and hit. -/
theorem edges_link [Zero R] (g : Graph R) (a b : Nat) :
    (g.link a b).1.edges = (g.ensureEdge a b).1.edges.modify (g.ensureEdge a b).2
      fun x => { x with windowHits := x.windowHits + 1 } := by
  rw [link]
  dsimp only
  split <;> rfl

/-- The edge of a link is there already, or it is new and comes last. In the second case no edge has
these ends, which is what keeps ends distinct. -/
theorem ensureEdge_cases [Zero R] (g : Graph R) (a b : Nat) :
    (∃ i e, g.ensureEdge a b = (g, i) ∧ g.edges[i]? = some e ∧ e.ends = (a, b))
      ∨ (a, b) ∉ g.edges.toList.map Edge.ends
        ∧ g.ensureEdge a b = ({ g with edges := g.edges.push ⟨a, b, 0, 0, 0⟩ }, g.edges.size) := by
  rw [ensureEdge]
  cases hfind : g.findEdge? a b with
  | some i =>
    obtain ⟨hi, hends, _⟩ := Array.findIdx?_eq_some_iff_getElem.mp hfind
    refine .inl ⟨i, g.edges[i], rfl, Array.getElem?_eq_getElem hi, ?_⟩
    simpa [Edge.ends] using hends
  | none =>
    refine .inr ⟨fun hmem => ?_, rfl⟩
    obtain ⟨e, he, hends⟩ := List.mem_map.mp hmem
    have hother := Array.findIdx?_eq_none_iff.mp hfind e (Array.mem_toList_iff.mp he)
    obtain ⟨rfl, rfl⟩ := Prod.mk.inj hends
    simp at hother

/-! ### Hits of a list of steps -/

/-- How often steps hit a vertex: each that leaves it does, and where paths end each that enters it. -/
def hitsBy (g : Graph R) (steps : List (Nat × Nat)) (v : Nat) : Nat :=
  steps.countP (fun p => p.1 == v)
    + if g.isTerminal v = true then steps.countP (fun p => p.2 == v) else 0

/-- Without steps there are no hits. -/
theorem hitsBy_nil (g : Graph R) (v : Nat) : g.hitsBy [] v = 0 := by
  rw [hitsBy, List.countP_nil, List.countP_nil, ite_self]

/-- One more step hits what a link hits. This is its source in any case, and its target if paths end
there. -/
theorem hitsBy_cons (g : Graph R) (a b : Nat) (steps : List (Nat × Nat)) (v : Nat) :
    g.hitsBy ((a, b) :: steps) v
      = g.hitsBy steps v + (if v = a then 1 else 0)
        + if v = b ∧ g.isTerminal b = true then 1 else 0 := by
  rw [hitsBy, hitsBy, List.countP_cons, List.countP_cons]
  by_cases hv : v = b
  · subst hv
    by_cases hend : g.isTerminal v = true
    · simp only [hend, if_true, and_self, beq_self_eq_true, beq_iff_eq, eq_comm (a := a)]
      omega
    · simp [hend, eq_comm (a := a)]
  · have hbeq : (b == v) = false := by simpa using Ne.symm hv
    simp only [hv, false_and, if_false, hbeq, Bool.false_eq_true, beq_iff_eq, eq_comm (a := a),
      Nat.add_zero]
    omega

/-- The hits of two lists of steps add up. -/
theorem hitsBy_append (g : Graph R) (steps steps' : List (Nat × Nat)) (v : Nat) :
    g.hitsBy (steps ++ steps') v = g.hitsBy steps v + g.hitsBy steps' v := by
  simp only [hitsBy, List.countP_append]
  split <;> omega

/-- In which order steps were taken does not matter to the hits. -/
theorem hitsBy_perm (g : Graph R) {steps steps' : List (Nat × Nat)} (h : steps.Perm steps')
    (v : Nat) : g.hitsBy steps v = g.hitsBy steps' v := by
  rw [hitsBy, hitsBy, h.countP_eq, h.countP_eq]

/-- It depends on the graph only whether the target counts. -/
theorem hitsBy_congr (h : g'.isTerminal v = g.isTerminal v) (steps : List (Nat × Nat)) :
    g'.hitsBy steps v = g.hitsBy steps v := by
  rw [hitsBy, hitsBy, h]

/-- The hits of a graph are those of a list of steps, in any order. -/
structure Tallied (g : Graph R) (steps : List (Nat × Nat)) : Prop where
  /-- No two edges have the same ends. -/
  distinct : (g.edges.toList.map Edge.ends).Nodup
  /-- There are edges for the steps, and for nothing else. -/
  covered : ∀ p, p ∈ steps ↔ p ∈ g.edges.toList.map Edge.ends
  /-- An edge is hit by every step between its ends. -/
  edge : ∀ e ∈ g.edges, e.hits = steps.count e.ends
  /-- A vertex is hit by every step that leaves it, or that ends a path there. -/
  vertex : ∀ v, g.vertexHits v = steps.countP (fun p => p.1 == v)
    + if g.isTerminal v = true then steps.countP (fun p => p.2 == v) else 0

/-- So steps may be listed in any order: the newest first, as they are recorded, or path by path. -/
theorem Tallied.perm {steps steps' : List (Nat × Nat)} (h : g.Tallied steps)
    (hperm : steps.Perm steps') : g.Tallied steps' where
  distinct := h.distinct
  covered := fun p => hperm.mem_iff.symm.trans (h.covered p)
  edge := fun e he => (h.edge e he).trans (hperm.count_eq e.ends)
  vertex := fun v => by rw [h.vertex v, hperm.countP_eq, hperm.countP_eq]

/-- In a graph whose edges have different ends, a link hits the edge between its vertices and no
other. -/
theorem Tallied.edge_link [Zero R] {steps : List (Nat × Nat)} (h : g.Tallied steps) :
    ∀ e ∈ (g.link a b).1.edges, e.hits = ((a, b) :: steps).count e.ends := by
  intro e he
  obtain ⟨j, hj⟩ := Array.mem_iff_getElem?.mp he
  rw [edges_link, Array.getElem?_modify] at hj
  rcases ensureEdge_cases g a b with ⟨i, e₀, hensure, he₀, hends⟩ | ⟨hnew, hensure⟩
  · rw [hensure] at hj
    by_cases hij : i = j
    · subst hij
      rw [if_pos rfl, he₀] at hj
      cases hj
      have hcount : ((a, b) :: steps).count e₀.ends = steps.count e₀.ends + 1 := by
        rw [hends, List.count_cons_self]
      show e₀.totalHits + (e₀.windowHits + 1) = List.count e₀.ends ((a, b) :: steps)
      rw [hcount, ← h.edge e₀ (Array.mem_of_getElem? he₀), Edge.hits]
      omega
    · rw [if_neg hij] at hj
      -- The edge found has the ends of the link, so that this one has others.
      have hother : (a, b) ≠ e.ends := by
        intro heq
        have hsame : (g.edges.toList.map Edge.ends)[i]? = (g.edges.toList.map Edge.ends)[j]? := by
          rw [List.getElem?_map, List.getElem?_map, Array.getElem?_toList, Array.getElem?_toList,
            he₀, hj]
          exact congrArg some (hends.trans heq)
        have hi : i < (g.edges.toList.map Edge.ends).length := by
          simpa using (Array.getElem?_eq_some_iff.mp he₀).1
        exact hij ((List.getElem?_inj hi h.distinct).mp hsame)
      rw [List.count_cons_of_ne hother]
      exact h.edge e (Array.mem_of_getElem? hj)
  · rw [hensure] at hj
    dsimp only at hj
    rw [Array.getElem?_push] at hj
    by_cases hsize : j = g.edges.size
    · subst hsize
      rw [if_pos rfl, if_pos rfl] at hj
      cases hj
      -- The edge is new, because the step was never taken before.
      have hnever : steps.count (a, b) = 0 :=
        List.count_eq_zero.mpr fun hmem => hnew ((h.covered _).mp hmem)
      show 0 + (0 + 1) = List.count (a, b) ((a, b) :: steps)
      rw [List.count_cons_self, hnever]
    · rw [if_neg (Ne.symm hsize), if_neg hsize] at hj
      have hmem := Array.mem_of_getElem? hj
      have hother : (a, b) ≠ e.ends := by
        intro heq
        exact hnew (heq ▸ List.mem_map_of_mem (Array.mem_toList_iff.mpr hmem))
      rw [List.count_cons_of_ne hother]
      exact h.edge e hmem

/-- A link is one more step. If there is an edge for it then that edge is hit once more, and if not
then one is appended that was hit once; either way edges and steps keep the same ends, each once. -/
theorem Tallied.link [Zero R] {steps : List (Nat × Nat)} (h : g.Tallied steps)
    (ha : a < g.vertices.size) (hb : b < g.vertices.size) :
    (g.link a b).1.Tallied ((a, b) :: steps) := by
  have hends : (g.link a b).1.edges.toList.map Edge.ends
      = (g.ensureEdge a b).1.edges.toList.map Edge.ends := by
    rw [edges_link, ends_modify]
  refine ⟨?_, fun p => ?_, h.edge_link, fun v => ?_⟩
  -- No two edges have the same ends: one is appended only where the look-up has found none.
  · rw [hends]
    rcases ensureEdge_cases g a b with ⟨i, _, hensure, _⟩ | ⟨hnew, hensure⟩
    · rw [hensure]
      exact h.distinct
    · rw [hensure]
      have hpush : (g.edges.push (⟨a, b, 0, 0, 0⟩ : Edge R)).toList.map Edge.ends
          = g.edges.toList.map Edge.ends ++ [(a, b)] := by simp [Edge.ends]
      rw [hpush]
      exact (List.perm_append_singleton _ _).nodup_iff.mpr (List.nodup_cons.mpr ⟨hnew, h.distinct⟩)
  -- There is an edge for exactly the steps taken, the new one included.
  · rw [hends, List.mem_cons, h.covered]
    rcases ensureEdge_cases g a b with ⟨i, e, hensure, he, hends⟩ | ⟨_, hensure⟩
    · rw [hensure]
      refine ⟨fun hp => hp.elim (fun heq => ?_) id, .inr⟩
      rw [heq, ← hends]
      exact List.mem_map_of_mem (Array.mem_toList_iff.mpr (Array.mem_of_getElem? he))
    · rw [hensure]
      simp [Edge.ends, or_comm]
  · rw [vertexHits_link ha hb, h.vertex, isTerminal_congr (kind?_link g a b v)]
    exact (hitsBy_cons g a b steps v).symm

/-! ### What leaves the hits as they are -/

/-- Another graph has at least the vertices, and the hits are the same. This is how a graph changes
when a vertex is created or a time is added, before a step is counted. -/
structure SameHits (g g' : Graph R) : Prop where
  size : g.vertices.size ≤ g'.vertices.size
  terminal : ∀ v, g'.isTerminal v = g.isTerminal v
  vertex : ∀ v, g'.vertexHits v = g.vertexHits v
  edge : g'.edges.toList.map Edge.tally = g.edges.toList.map Edge.tally
  txns : g'.txns = g.txns

/-- A graph has the hits that it has. -/
theorem SameHits.refl (g : Graph R) : SameHits g g :=
  ⟨Nat.le_refl _, fun _ => rfl, fun _ => rfl, rfl, rfl⟩

/-- Two operations that do not count do not count together. -/
theorem SameHits.trans {g'' : Graph R} (h : SameHits g g') (h' : SameHits g' g'') :
    SameHits g g'' where
  size := Nat.le_trans h.size h'.size
  terminal := fun v => (h'.terminal v).trans (h.terminal v)
  vertex := fun v => (h'.vertex v).trans (h.vertex v)
  edge := h'.edge.trans h.edge
  txns := h'.txns.trans h.txns

/-- The hits of an edge are kept with its ends, so these stay too. -/
theorem SameHits.ends (h : SameHits g g') :
    g'.edges.toList.map Edge.ends = g.edges.toList.map Edge.ends := by
  have hfst := congrArg (List.map Prod.fst) h.edge
  rwa [List.map_map, List.map_map] at hfst

/-- The tally speaks of hits and ends only, so that it survives whatever keeps them. -/
theorem Tallied.of_sameHits {steps : List (Nat × Nat)} (h : g.Tallied steps)
    (hsame : SameHits g g') : g'.Tallied steps where
  distinct := hsame.ends ▸ h.distinct
  covered := fun p => hsame.ends ▸ h.covered p
  edge := by
    intro e he
    have hmem : e.tally ∈ g.edges.toList.map Edge.tally :=
      hsame.edge ▸ List.mem_map_of_mem (Array.mem_toList_iff.mpr he)
    obtain ⟨e₀, he₀, heq⟩ := List.mem_map.mp hmem
    obtain ⟨hends, hhits⟩ := Prod.mk.inj heq
    rw [← hhits, ← hends]
    exact h.edge e₀ (Array.mem_toList_iff.mp he₀)
  vertex := fun v => by rw [hsame.vertex, hsame.terminal, h.vertex]

/-- A vertex that was never hit adds no hits, and a path does not end at a call. So a graph counts
the same before and after the vertex of a call is made. -/
theorem sameHits_ensureCall (g : Graph R) (c : Call) : SameHits g (g.ensureCall c).1 := by
  cases hfind : g.findCall? c with
  | some v =>
    rw [ensureCall, hfind]
    exact .refl g
  | none =>
    rw [ensureCall, hfind]
    have hlast : g.vertices[g.vertices.size]? = none := Array.getElem?_eq_none (Nat.le_refl _)
    refine ⟨?_, fun v => ?_, fun v => ?_, rfl, rfl⟩
    · rw [size_pushVertex]
      omega
    -- The new vertex stands for a call: it is no terminal, and has not been hit.
    · rw [isTerminal_eq, isTerminal_eq, kind?_pushVertex]
      split
      case isTrue hv => rw [hv, kind?, hlast]; rfl
      case isFalse => rfl
    · rw [vertexHits, vertexHits, pushVertex, Array.getElem?_push]
      split
      case isTrue hv => rw [hv, hlast]; rfl
      case isFalse => rfl

/-- What changes neither the kinds nor the hits of vertices, nor the ends or hits of edges, changes
no counts. Tables, weights and clocks may change. -/
theorem sameHits_of_vertices
    (hvertices : ∀ v : Nat, (g'.vertices[v]?).map Vertex.tally = (g.vertices[v]?).map Vertex.tally)
    (hedge : g'.edges.toList.map Edge.tally = g.edges.toList.map Edge.tally)
    (htxns : g'.txns = g.txns) : SameHits g g' where
  size := by
    -- Behind the last vertex of one graph the other has none either.
    have hlast := hvertices g'.vertices.size
    rw [Array.getElem?_eq_none (Nat.le_refl _)] at hlast
    exact Array.getElem?_eq_none_iff.mp (Option.map_eq_none_iff.mp hlast.symm)
  terminal := by
    intro v
    have hkind := congrArg (Option.map Prod.fst) (hvertices v)
    rw [Option.map_map, Option.map_map] at hkind
    exact isTerminal_congr hkind
  vertex := by
    intro v
    have hhits := congrArg (Option.elim · 0 Prod.snd) (hvertices v)
    rwa [Option.elim_map, Option.elim_map] at hhits
  edge := hedge
  txns := htxns

/-- Times are kept beside the hits. -/
theorem sameHits_addTime (g : Graph R) (u nanos : Nat) : SameHits g (g.addTime u nanos) := by
  refine sameHits_of_vertices (fun v => ?_) rfl rfl
  rw [addTime, Array.getElem?_modify]
  split
  · rw [Option.map_map]
    rfl
  · rfl

/-- Folding the window moves hits from one window to the other. -/
theorem sameHits_foldWindow (g : Graph R) : SameHits g g.foldWindow := by
  refine sameHits_of_vertices (fun v => ?_) ?_ rfl
  · rw [foldWindow, Array.getElem?_map, Option.map_map]
    rfl
  · simp [foldWindow, Edge.tally, Edge.hits, Edge.ends, Function.comp_def]

/-- Setting probabilities is no hit. Deriving changes tables and probabilities of edges, and these
are no part of a tally. -/
theorem SameButTables.sameHits [Scalar R] (h : SameButTables g.unsetTables.weighEdges g') :
    SameHits g g' := by
  have hunset : SameHits g g.unsetTables.weighEdges := by
    refine sameHits_of_vertices (fun v => ?_) ?_ rfl
    · rw [weighEdges, unsetTables, Array.getElem?_map, Option.map_map]
      rfl
    · simp [unsetTables, weighEdges, Edge.tally, Edge.hits, Edge.ends, Function.comp_def]
  refine hunset.trans (sameHits_of_vertices (fun v => ?_) (by rw [h.edges]) (by rw [h.frame]))
  cases hx : g.unsetTables.weighEdges.vertices[v]? with
  | some x =>
    obtain ⟨t, ht⟩ := h.vertex v x hx
    rw [ht]
    rfl
  | none =>
    rw [Array.getElem?_eq_none_iff, ← h.size] at hx
    rw [Array.getElem?_eq_none hx]

end Graph

end TxnPath
