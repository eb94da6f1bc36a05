import TxnPath.Archive.Load
import TxnPath.Proofs.Graph.Tally

/-!
# `TxnPath.Proofs.Archive.Build`: which records make a graph

A stored graph is built vertex by vertex and edge by edge, with a check before each.
`build_ok_iff` says what these checks come to. A record makes a graph if and only if it is
well formed (`GraphRecord.WellFormed`): the procedure has the statements that its vertices call,
no two vertices are alike, there is one sentinel of each kind, and its edges lead from vertex to
vertex, no two of them alike. The graph then has the stored vertices and edges at their places
(`GraphRecord.skeleton`), so that it is initialized.

Nothing is asked of the edges that leave sentinels, nor of the partitions that calls touch.
-/

set_option autoImplicit false

namespace TxnPath

variable {R : Type}

/-- Whether a vertex could not be told from another: the same sentinel, or calls that are not told
apart. -/
def VertexKind.clashes : VertexKind → VertexKind → Bool
  | .query c, kind => kind.call?.any c.sameAs
  | kind, kind' => kind' == kind

/-- Whether a procedure has the statement that a vertex calls. -/
def VertexKind.isKnown (p : Procedure) : VertexKind → Bool
  | .query c => (p.statement? c.statement).isSome
  | _ => true

/-- A stored vertex as one of a graph for `n` partitions, not hit since. -/
def VertexRecord.vertex (n : Nat) (v : VertexRecord) : Vertex R :=
  { Vertex.new v.kind n with
    totalHits := v.totalHits, execNanos := v.execNanos, execSamples := v.execSamples }

/-- The ends of a stored edge. -/
def EdgeRecord.ends (e : EdgeRecord) : Nat × Nat := (e.source, e.target)

/-- A stored edge as one of a graph, not hit since. -/
def EdgeRecord.edge [Zero R] (e : EdgeRecord) : Edge R := ⟨e.source, e.target, e.totalHits, 0, 0⟩

namespace Graph

variable {g g' : Graph R} {p : Procedure}

/-! ### Vertices -/

/-- A stored vertex is appended if its statement is known and no vertex is like it. Sentinels are
told from each other by their kinds and calls by what they call, so that the two are looked up in
different ways; clashing covers both. -/
theorem loadVertex_ok_iff {v : VertexRecord} {i : Nat} :
    g.loadVertex p (v, i) = .ok g'
      ↔ v.kind.isKnown p = true ∧ (∀ x ∈ g.vertices, v.kind.clashes x.kind = false)
        ∧ g' = g.pushRecord v := by
  have hsentinel : ∀ kind, (g.findKind? kind).isSome = true
      ↔ ¬ ∀ x ∈ g.vertices, (x.kind == kind) = false := fun kind => by
    rw [← Array.findIdx?_eq_none_iff, Option.isSome_iff_ne_none]
    rfl
  have hcall : ∀ c, (g.findCall? c).isSome = true
      ↔ ¬ ∀ x ∈ g.vertices, (x.kind.call?.any c.sameAs) = false := fun c => by
    rw [← Array.findIdx?_eq_none_iff, Option.isSome_iff_ne_none]
    rfl
  obtain ⟨kind, hits, nanos, samples⟩ := v
  rw [loadVertex]
  cases kind with
  -- A sentinel is known to every procedure, and clashes with its own kind only.
  | start | commit | abort =>
    dsimp only [VertexKind.isKnown, VertexKind.clashes]
    split
    case isTrue hsome => exact ⟨nofun, fun h => absurd h.2.1 ((hsentinel _).mp hsome)⟩
    case isFalse hnone =>
      have hnone := not_not.mp (mt (hsentinel _).mpr hnone)
      rw [Except.ok.injEq, eq_comm]
      exact ⟨fun h => ⟨rfl, hnone, h⟩, fun h => h.2.2⟩
  -- A call is checked twice: its statement must be known, and no vertex may stand for the same
  -- call.
  | query c =>
    dsimp only [VertexKind.isKnown, VertexKind.clashes]
    split
    case isTrue hunknown =>
      rw [Option.isNone_iff_eq_none] at hunknown
      rw [hunknown]
      exact ⟨nofun, fun h => nomatch h.1⟩
    case isFalse hknown =>
      have hknown : (p.statement? c.statement).isSome = true := by
        rwa [← Option.not_isNone, Bool.not_eq_true', ← Bool.not_eq_true]
      split
      case isTrue hsome => exact ⟨nofun, fun h => absurd h.2.1 ((hcall c).mp hsome)⟩
      case isFalse hnone =>
        have hnone := not_not.mp (mt (hcall c).mpr hnone)
        rw [Except.ok.injEq, eq_comm]
        exact ⟨fun h => ⟨hknown, hnone, h⟩, fun h => h.2.2⟩

/-- Stored vertices are appended in their order, if all are known and no two are alike, counting
those that are there. -/
theorem foldlM_loadVertex_iff {vs : List VertexRecord} {i : Nat} :
    (vs.zipIdx i).foldlM (loadVertex p) g = .ok g'
      ↔ (∀ v ∈ vs, v.kind.isKnown p = true)
        ∧ (vs.Pairwise fun u v => v.kind.clashes u.kind = false)
        ∧ (∀ v ∈ vs, ∀ x ∈ g.vertices, v.kind.clashes x.kind = false)
        ∧ g' = { g with
            vertices := g.vertices ++ (vs.map (VertexRecord.vertex g.partitions)).toArray } := by
  induction vs generalizing g i with
  | nil =>
    rw [List.zipIdx_nil, List.map_nil, Array.append_empty]
    exact ⟨fun h => ⟨nofun, .nil, nofun, (Except.ok.inj h).symm⟩, fun h => congrArg _ h.2.2.2.symm⟩
  | cons v vs ih =>
    -- The vertices that are there next are those before and the new one.
    have hpushed : ∀ u : VertexRecord, (∀ x ∈ (g.pushRecord v).vertices, u.kind.clashes x.kind = false)
        ↔ u.kind.clashes v.kind = false ∧ ∀ x ∈ g.vertices, u.kind.clashes x.kind = false := by
      intro u
      simp only [pushRecord, Array.mem_push]
      exact ⟨fun h => ⟨h _ (.inr rfl), fun x hx => h x (.inl hx)⟩,
        fun h x hx => hx.elim (h.2 x) fun heq => heq ▸ h.1⟩
    have hvertices : (g.pushRecord v).vertices
          ++ (vs.map (VertexRecord.vertex (g.pushRecord v).partitions)).toArray
        = g.vertices ++ ((v :: vs).map (VertexRecord.vertex g.partitions)).toArray := by
      simp [pushRecord, VertexRecord.vertex]
    rw [List.zipIdx_cons, Outcome.foldlM_cons_iff]
    simp only [loadVertex_ok_iff, List.forall_mem_cons, List.pairwise_cons]
    constructor
    · rintro ⟨_, ⟨hknown, hfresh, rfl⟩, hrest⟩
      obtain ⟨hknown', hapart, hfresh', hg'⟩ := ih.mp hrest
      simp only [hpushed] at hfresh'
      rw [hvertices] at hg'
      exact ⟨⟨hknown, hknown'⟩, ⟨fun u hu => (hfresh' u hu).1, hapart⟩,
        ⟨hfresh, fun u hu => (hfresh' u hu).2⟩, hg'⟩
    · rintro ⟨⟨hknown, hknown'⟩, ⟨happart, hapart'⟩, ⟨hfresh, hfresh'⟩, hg'⟩
      refine ⟨_, ⟨hknown, hfresh, rfl⟩, ih.mpr ⟨hknown', hapart', fun u hu => ?_, ?_⟩⟩
      · exact (hpushed u).mpr ⟨happart u hu, hfresh' u hu⟩
      · rw [hvertices]
        exact hg'

/-! ### Edges -/

/-- A stored edge is appended if it leads from vertex to vertex and no edge is like it. The look-up
goes through edges from the first on, and finds one if and only if there is one of these ends. -/
theorem loadEdge_ok_iff [Zero R] {e : EdgeRecord} :
    g.loadEdge e = .ok g'
      ↔ (e.source < g.vertices.size ∧ e.target < g.vertices.size)
        ∧ (∀ x ∈ g.edges, x.ends ≠ e.ends)
        ∧ g' = { g with edges := g.edges.push e.edge } := by
  have hfind : (g.findEdge? e.source e.target).isSome = true
      ↔ ¬ ∀ x ∈ g.edges, x.ends ≠ e.ends := by
    have hends : ∀ x : Edge R,
        (x.source == e.source && x.target == e.target) = false ↔ x.ends ≠ e.ends := fun x => by
      rw [Edge.ends, EdgeRecord.ends, ne_eq, Prod.mk.injEq, ← Bool.not_eq_true, Bool.and_eq_true,
        beq_iff_eq, beq_iff_eq]
    simp only [← hends]
    rw [← Array.findIdx?_eq_none_iff, Option.isSome_iff_ne_none]
    rfl
  rw [loadEdge]
  split
  case isTrue hout =>
    constructor
    · intro h
      cases h
    · rintro ⟨hrange, _⟩
      omega
  -- Both ends are there; what is left is whether there is such an edge already.
  case isFalse hinside =>
    have hinside : e.source < g.vertices.size ∧ e.target < g.vertices.size := by omega
    split
    case isTrue hsome =>
      constructor
      · intro h
        cases h
      · rintro ⟨_, hnew, _⟩
        exact absurd hnew (hfind.mp hsome)
    case isFalse hnone =>
      have hnone := not_not.mp (mt hfind.mpr hnone)
      rw [Except.ok.injEq, eq_comm]
      exact ⟨fun h => ⟨hinside, hnone, h⟩, fun h => h.2.2⟩

/-- Stored edges are appended in their order, if they lead from vertex to vertex and no two are
alike, counting those that are there. -/
theorem foldlM_loadEdge_iff [Zero R] {es : List EdgeRecord} :
    es.foldlM loadEdge g = .ok g'
      ↔ (∀ e ∈ es, e.source < g.vertices.size ∧ e.target < g.vertices.size)
        ∧ (es.map EdgeRecord.ends).Nodup
        ∧ (∀ e ∈ es, ∀ x ∈ g.edges, x.ends ≠ e.ends)
        ∧ g' = { g with edges := g.edges ++ (es.map EdgeRecord.edge).toArray } := by
  induction es generalizing g with
  | nil =>
    rw [List.map_nil, List.map_nil, Array.append_empty]
    exact ⟨fun h => ⟨nofun, .nil, nofun, (Except.ok.inj h).symm⟩, fun h => congrArg _ h.2.2.2.symm⟩
  | cons e es ih =>
    -- An edge read later must differ from the ones before it in the record, as these are in the
    -- graph by then.
    have hpushed : ∀ u : EdgeRecord, (∀ x ∈ g.edges.push e.edge, x.ends ≠ u.ends)
        ↔ e.ends ≠ u.ends ∧ ∀ x ∈ g.edges, x.ends ≠ u.ends := by
      intro u
      simp only [Array.mem_push]
      exact ⟨fun h => ⟨h _ (.inr rfl), fun x hx => h x (.inl hx)⟩,
        fun h x hx => hx.elim (h.2 x) fun heq => heq ▸ h.1⟩
    have hedges : g.edges.push e.edge ++ (es.map EdgeRecord.edge).toArray
        = g.edges ++ ((e :: es).map EdgeRecord.edge).toArray := by simp
    rw [Outcome.foldlM_cons_iff]
    simp only [loadEdge_ok_iff, List.forall_mem_cons, List.map_cons, List.nodup_cons, List.mem_map,
      not_exists, not_and]
    constructor
    · rintro ⟨_, ⟨hinside, hfresh, rfl⟩, hrest⟩
      obtain ⟨hinside', hnodup, hfresh', hg'⟩ := ih.mp hrest
      simp only [hpushed] at hfresh'
      rw [hedges] at hg'
      exact ⟨⟨hinside, hinside'⟩, ⟨fun u hu => Ne.symm (hfresh' u hu).1, hnodup⟩,
        ⟨hfresh, fun u hu => (hfresh' u hu).2⟩, hg'⟩
    · rintro ⟨⟨hinside, hinside'⟩, ⟨hdistinct, hnodup⟩, ⟨hfresh, hfresh'⟩, hg'⟩
      refine ⟨_, ⟨hinside, hfresh, rfl⟩, ih.mpr ⟨hinside', hnodup, fun u hu => ?_, ?_⟩⟩
      · exact (hpushed u).mpr ⟨Ne.symm (hdistinct u hu), hfresh' u hu⟩
      · rw [hedges]
        exact hg'

/-! ### Sentinels -/

/-- The first vertex of a kind is the only one there is. -/
theorem findKind?_iff {kind : VertexKind} {i : Nat}
    (honce : ∀ u v, g.kind? u = some kind → g.kind? v = some kind → u = v) :
    g.findKind? kind = some i ↔ g.kind? i = some kind := by
  have hkind : ∀ j (hj : j < g.vertices.size), (g.vertices[j].kind == kind) = true
      ↔ g.kind? j = some kind := fun j hj => by
    rw [kind?, Array.getElem?_eq_getElem hj, Option.map_some, beq_iff_eq, Option.some_inj]
  rw [findKind?, Array.findIdx?_eq_some_iff_getElem]
  constructor
  · rintro ⟨hi, hfound, _⟩
    exact (hkind i hi).mp hfound
  · intro hfound
    refine ⟨lt_size hfound, (hkind i _).mpr hfound, fun j hj hbefore => ?_⟩
    exact Nat.ne_of_lt hj (honce j i ((hkind j _).mp hbefore) hfound)

/-- The sentinels are found if each of the three kinds is. -/
theorem findSentinels?_iff {s : Sentinels} :
    g.findSentinels? = some s ↔ g.findKind? .start = some s.start
      ∧ g.findKind? .commit = some s.commit ∧ g.findKind? .abort = some s.abort := by
  obtain ⟨start, commit, abort⟩ := s
  cases hstart : g.findKind? .start <;> cases hcommit : g.findKind? .commit <;>
    cases habort : g.findKind? .abort <;> simp [findSentinels?, hstart, hcommit, habort]

end Graph

namespace GraphRecord

/-- What a stored vertex stands for. -/
def kind? (r : GraphRecord) (v : Nat) : Option VertexKind := (r.vertices[v]?).map VertexRecord.kind

/-- A record from which a graph of a procedure can be built, with its sentinels at given places. It
is what the checks of loading come to, all together: there is a graph for exactly these records. -/
structure WellFormed (r : GraphRecord) (p : Procedure) (s : Sentinels) : Prop where
  /-- Calls are of statements that the procedure has. -/
  known : ∀ v ∈ r.vertices, v.kind.isKnown p = true
  /-- No two vertices are the same sentinel or stand for the same call. -/
  apart : r.vertices.Pairwise fun u v => v.kind.clashes u.kind = false
  start : r.kind? s.start = some .start
  commit : r.kind? s.commit = some .commit
  abort : r.kind? s.abort = some .abort
  /-- No edge dangles. -/
  inside : ∀ e ∈ r.edges, e.source < r.vertices.length ∧ e.target < r.vertices.length
  /-- No two edges have the same ends. -/
  distinct : (r.edges.map EdgeRecord.ends).Nodup

/-- The graph of a record, without probabilities. Its vertices and edges are those of the record, in
the same places. -/
def skeleton [Zero R] (r : GraphRecord) (id : ProcedureId) (s : Sentinels) : Graph R where
  procedure := id
  base := r.base
  partitions := r.partitions
  vertices := (r.vertices.map (VertexRecord.vertex r.partitions)).toArray
  edges := (r.edges.map EdgeRecord.edge).toArray
  sentinels := some s
  txns := r.txns
  windowTxns := 0

variable {r : GraphRecord} {p : Procedure} {s : Sentinels} {g : Graph R}

/-- Of vertices that are not alike, no two are the same sentinel. Sentinels of one kind are always
alike, whereas two calls need not be, so that it takes a kind without a call. -/
theorem once_of_apart (h : r.vertices.Pairwise fun u v => v.kind.clashes u.kind = false)
    {u v : Nat} {kind : VertexKind} (hu : r.kind? u = some kind) (hv : r.kind? v = some kind)
    (hcall : kind.call? = none) : u = v := by
  have hlt : ∀ {a b : Nat}, r.kind? a = some kind → r.kind? b = some kind → ¬ a < b := by
    intro a b ha hb hab
    obtain ⟨x, hx, rfl⟩ := Option.map_eq_some_iff.mp ha
    obtain ⟨y, hy, hkind⟩ := Option.map_eq_some_iff.mp hb
    obtain ⟨hxlt, rfl⟩ := List.getElem?_eq_some_iff.mp hx
    obtain ⟨hylt, rfl⟩ := List.getElem?_eq_some_iff.mp hy
    have hclash := List.pairwise_iff_getElem.mp h a b hxlt hylt hab
    rw [hkind] at hclash
    cases hself : r.vertices[a].kind with
    | start | commit | abort => rw [hself] at hclash; cases hclash
    | query c => rw [hself] at hcall; cases hcall
  have := hlt hu hv
  have := hlt hv hu
  omega

/-- A graph of the stored vertices has their kinds. -/
theorem kind?_eq {n : Nat}
    (h : g.vertices = (r.vertices.map (VertexRecord.vertex n)).toArray) (v : Nat) :
    g.kind? v = r.kind? v := by
  rw [Graph.kind?, kind?, h, List.getElem?_toArray, List.getElem?_map, Option.map_map]
  rfl

/-- In a graph of stored vertices that are not alike, sentinels are found where they are. -/
theorem findSentinels?_eq {n : Nat}
    (h : g.vertices = (r.vertices.map (VertexRecord.vertex n)).toArray)
    (hapart : r.vertices.Pairwise fun u v => v.kind.clashes u.kind = false) :
    g.findSentinels? = some s ↔ r.kind? s.start = some .start ∧ r.kind? s.commit = some .commit
      ∧ r.kind? s.abort = some .abort := by
  have hfind : ∀ {kind : VertexKind} {i : Nat}, kind.call? = none →
      (g.findKind? kind = some i ↔ r.kind? i = some kind) := fun hcall => by
    rw [← kind?_eq h]
    refine Graph.findKind?_iff fun u v hu hv => ?_
    rw [kind?_eq h] at hu hv
    exact once_of_apart hapart hu hv hcall
  rw [Graph.findSentinels?_iff, hfind rfl, hfind rfl, hfind rfl]

section Skeleton

variable [Zero R]

/-- The vertices of the graph stand for what the record says. -/
theorem kind?_skeleton (id : ProcedureId) (v : Nat) :
    (r.skeleton id s : Graph R).kind? v = r.kind? v := kind?_eq rfl v

/-- The graph of a well-formed record is initialized. -/
theorem WellFormed.initialized (h : r.WellFormed p s) (id : ProcedureId) :
    (r.skeleton id s : Graph R).Initialized s where
  placed := rfl
  start := (kind?_skeleton id _).trans h.start
  commit := (kind?_skeleton id _).trans h.commit
  abort := (kind?_skeleton id _).trans h.abort
  once := fun u v kind hu hv hcall => by
    rw [kind?_skeleton] at hu hv
    exact once_of_apart h.apart hu hv hcall
  edges := fun e he => by
    obtain ⟨e', he', rfl⟩ := List.mem_map.mp (List.mem_toArray.mp he)
    simpa [skeleton, EdgeRecord.edge] using h.inside e' he'

end Skeleton

variable [Scalar R]

/-- The records from which graphs can be built are those that are well formed. The graph that is
built is the skeleton of the record: counters and ends as stored, and nothing derived. -/
theorem build_ok_iff : r.build p = .ok g ↔ ∃ s, r.WellFormed p s ∧ g = r.skeleton p.id s := by
  let g₁ : Graph R := { Graph.bare p.id r.base r.partitions with
    vertices := #[] ++ (r.vertices.map (VertexRecord.vertex r.partitions)).toArray }
  have hvertices : g₁.vertices = (r.vertices.map (VertexRecord.vertex r.partitions)).toArray :=
    Array.empty_append
  have hsize : g₁.vertices.size = r.vertices.length := by rw [hvertices]; simp
  constructor
  -- The three passes over the record, in their order: vertices, sentinels, edges.
  · intro h
    rw [build] at h
    split at h
    · cases h
    case h_2 hfold =>
    obtain ⟨hknown, hapart, _, rfl⟩ := Graph.foldlM_loadVertex_iff.mp hfold
    split at h
    · cases h
    case h_2 s hsentinels =>
    obtain ⟨hstart, hcommit, habort⟩ := (findSentinels?_eq (g := g₁) hvertices hapart).mp hsentinels
    split at h
    · cases h
    case h_2 hfold' =>
    obtain ⟨hinside, hdistinct, _, rfl⟩ := Graph.foldlM_loadEdge_iff.mp hfold'
    cases h
    refine ⟨s, ⟨hknown, hapart, hstart, hcommit, habort, ?_, hdistinct⟩, ?_⟩
    · intro e he
      exact hsize ▸ hinside e he
    · simp [skeleton, Graph.bare]
  -- Each part of being well formed is what one of the passes asks for.
  · rintro ⟨s, h, rfl⟩
    have hfold : r.vertices.zipIdx.foldlM (Graph.loadVertex p)
        (Graph.bare p.id r.base r.partitions) = .ok g₁ :=
      Graph.foldlM_loadVertex_iff.mpr ⟨h.known, h.apart, nofun, rfl⟩
    have hsentinels := (findSentinels?_eq hvertices h.apart).mpr ⟨h.start, h.commit, h.abort⟩
    have hfold' : r.edges.foldlM Graph.loadEdge { g₁ with sentinels := some s }
        = .ok { r.skeleton p.id s with txns := 0 } :=
      Graph.foldlM_loadEdge_iff.mpr ⟨fun e he => hsize.symm ▸ h.inside e he, h.distinct, nofun, by
        simp [skeleton, g₁, Graph.bare]⟩
    rw [build, hfold]
    dsimp only
    rw [hsentinels]
    dsimp only
    rw [hfold']
    rfl

end GraphRecord

end TxnPath
