import TxnPath.Graph.Recompute

/-!
# `TxnPath.Proofs.Graph.Initialized`: graphs that have their sentinels

`Graph.Initialized` says that the sentinels stand where they are noted to stand, that no
other vertex is of their kind, and that edges lead from vertex to vertex. A fresh graph is
initialized (`initialized_fresh`), and whatever adds to a graph or counts in it keeps it so:
the calls, the steps between vertices that exist, the measurements, and the window.
-/

set_option autoImplicit false

namespace TxnPath

namespace Graph

variable {R : Type} {g : Graph R} {s : Sentinels}

/-- What a vertex stands for, if it exists. -/
def kind? (g : Graph R) (v : Nat) : Option VertexKind := g.vertices[v]?.map Vertex.kind

/-- Exactly the vertices that are there stand for something. -/
theorem kind?_isSome {v : Nat} : (g.kind? v).isSome ↔ v < g.vertices.size := by
  simp [kind?]

/-- A vertex that stands for something exists. -/
theorem lt_size {v : Nat} {kind : VertexKind} (h : g.kind? v = some kind) :
    v < g.vertices.size :=
  kind?_isSome.mp (h ▸ rfl)

/-- The sentinels are in their places, once each, and edges do not dangle. It is what makes the
operations on a graph succeed, and all of them keep it. -/
structure Initialized (g : Graph R) (s : Sentinels) : Prop where
  /-- The graph knows the places of its sentinels. -/
  placed : g.sentinels = some s
  start : g.kind? s.start = some .start
  commit : g.kind? s.commit = some .commit
  abort : g.kind? s.abort = some .abort
  /-- A sentinel is at one place only. -/
  once : ∀ u v kind, g.kind? u = some kind → g.kind? v = some kind → kind.call? = none → u = v
  /-- Both ends of an edge are vertices. -/
  edges : ∀ e ∈ g.edges, e.source < g.vertices.size ∧ e.target < g.vertices.size

/-- The sentinels can be asked for. -/
theorem Initialized.requireSentinels_eq (h : g.Initialized s) : g.requireSentinels = .ok s := by
  rw [requireSentinels, h.placed]

/-- COMMIT and ABORT are different vertices. -/
theorem Initialized.commit_ne_abort (h : g.Initialized s) : s.commit ≠ s.abort := by
  intro heq
  have hcommit := h.commit
  rw [heq, h.abort] at hcommit
  cases hcommit

/-- Only the sentinels end paths. -/
theorem Initialized.terminal (h : g.Initialized s) {v : Nat} {kind : VertexKind}
    (hkind : g.kind? v = some kind) (hterminal : kind.isTerminal = true) :
    v = s.commit ∨ v = s.abort := by
  cases kind with
  | start => cases hterminal
  | commit => exact .inl (h.once _ _ _ hkind h.commit rfl)
  | abort => exact .inr (h.once _ _ _ hkind h.abort rfl)
  | query c => cases hterminal

/-! ### What keeps a graph initialized
-/

/-- A graph with the same sentinels and the same kinds of vertices is initialized if its
edges lead from vertex to vertex. -/
theorem Initialized.of_kinds {g' : Graph R} (h : g.Initialized s)
    (hsentinels : g'.sentinels = g.sentinels) (hkinds : ∀ v, g'.kind? v = g.kind? v)
    (hedges : ∀ e ∈ g'.edges, e.source < g.vertices.size ∧ e.target < g.vertices.size) :
    g'.Initialized s where
  placed := hsentinels.trans h.placed
  start := (hkinds _).trans h.start
  commit := (hkinds _).trans h.commit
  abort := (hkinds _).trans h.abort
  once := fun u v kind hu hv => h.once u v kind (hkinds u ▸ hu) (hkinds v ▸ hv)
  edges := fun e he => by
    have hlt : ∀ v, v < g.vertices.size → v < g'.vertices.size := fun v hv => by
      rwa [← kind?_isSome, hkinds, kind?_isSome]
    exact ⟨hlt _ (hedges e he).1, hlt _ (hedges e he).2⟩

/-- An operation on all vertices that does not look at kinds changes none. -/
theorem kind?_map {f : Vertex R → Vertex R} (hf : ∀ x, (f x).kind = x.kind) (v : Nat) :
    kind? { g with vertices := g.vertices.map f } v = g.kind? v := by
  simp [kind?, Function.comp_def, hf]

/-- Nor does such an operation on one vertex. -/
theorem kind?_modify {f : Vertex R → Vertex R} (hf : ∀ x, (f x).kind = x.kind) (u v : Nat) :
    kind? { g with vertices := g.vertices.modify u f } v = g.kind? v := by
  rw [kind?, kind?, Array.getElem?_modify]
  split
  · simp [Function.comp_def, hf]
  · rfl

/-- One vertex more. -/
theorem size_pushVertex (kind : VertexKind) :
    (g.pushVertex kind).vertices.size = g.vertices.size + 1 := Array.size_push _

/-- A new vertex becomes the last and changes no other. -/
theorem kind?_pushVertex (kind : VertexKind) (v : Nat) :
    (g.pushVertex kind).kind? v = if v = g.vertices.size then some kind else g.kind? v := by
  rw [kind?, pushVertex, Array.getElem?_push]
  split
  · rfl
  · rfl

/-- Three more vertices make a graph of calls initialized. They are the only ones of their kinds,
since the vertices before them all stand for calls, and edges that led from vertex to vertex still
do. -/
theorem initialized_pushSentinels
    (hcalls : ∀ v kind, g.kind? v = some kind → kind.call? ≠ none)
    (hedges : ∀ e ∈ g.edges, e.source < g.vertices.size ∧ e.target < g.vertices.size) :
    g.pushSentinels.Initialized
      ⟨g.vertices.size, g.vertices.size + 1, g.vertices.size + 2⟩ := by
  have hkind : ∀ v, g.pushSentinels.kind? v
      = if v = g.vertices.size + 2 then some .abort
        else if v = g.vertices.size + 1 then some .commit
        else if v = g.vertices.size then some .start else g.kind? v := by
    intro v
    show (((g.pushVertex .start).pushVertex .commit).pushVertex .abort).kind? v = _
    simp only [kind?_pushVertex, size_pushVertex]
  -- The old vertices stand for calls, so that the last three are the only sentinels.
  have hold : ∀ {v kind}, g.pushSentinels.kind? v = some kind → kind.call? = none →
      v = g.vertices.size + 2 ∧ kind = .abort ∨ v = g.vertices.size + 1 ∧ kind = .commit
        ∨ v = g.vertices.size ∧ kind = .start := by
    intro v kind h hcall
    rw [hkind] at h
    split at h
    · exact .inl ⟨‹_›, (Option.some.inj h).symm⟩
    · split at h
      · exact .inr (.inl ⟨‹_›, (Option.some.inj h).symm⟩)
      · split at h
        · exact .inr (.inr ⟨‹_›, (Option.some.inj h).symm⟩)
        · exact absurd hcall (hcalls v kind h)
  -- The three are where they are said to be, no other vertex is of their kinds, and edges stay
  -- inside.
  refine ⟨rfl, by simp [hkind], by simp [hkind], by simp [hkind], fun u v kind hu hv hcall => ?_,
    fun e he => ?_⟩
  · rcases hold hu hcall with ⟨rfl, rfl⟩ | ⟨rfl, rfl⟩ | ⟨rfl, rfl⟩ <;>
      rcases hold hv hcall with ⟨rfl, h⟩ | ⟨rfl, h⟩ | ⟨rfl, h⟩ <;> first | rfl | cases h
  · have hsize : g.vertices.size ≤ g.pushSentinels.vertices.size := by
      simp only [pushSentinels, pushVertex, Array.size_push]
      omega
    exact ⟨Nat.lt_of_lt_of_le (hedges e he).1 hsize, Nat.lt_of_lt_of_le (hedges e he).2 hsize⟩

/-- The sentinels alone make an initialized graph. -/
theorem initialized_fresh (procedure : ProcedureId) (base partitions : Nat) :
    (fresh procedure base partitions : Graph R).Initialized ⟨0, 1, 2⟩ :=
  initialized_pushSentinels (g := bare procedure base partitions) nofun nofun

/-- A vertex that is added for a call is no sentinel, so that START, COMMIT and ABORT stay the only
ones of their kind. -/
theorem Initialized.ensureCall (h : g.Initialized s) (c : Call) :
    (g.ensureCall c).1.Initialized s := by
  cases hfind : g.findCall? c with
  | some v =>
    rw [Graph.ensureCall, hfind]
    exact h
  | none =>
    rw [Graph.ensureCall, hfind]
    have hold : ∀ {v kind}, g.kind? v = some kind →
        (g.pushVertex (.query c)).kind? v = some kind := by
      intro v kind hkind
      rw [kind?_pushVertex, if_neg (Nat.ne_of_lt (lt_size hkind)), hkind]
    -- Only calls have no name of their own, so that a sentinel is never the new vertex.
    have hnew : ∀ {v kind}, (g.pushVertex (.query c)).kind? v = some kind → kind.call? = none →
        g.kind? v = some kind := by
      intro v kind hkind hcall
      rw [kind?_pushVertex] at hkind
      split at hkind
      · rw [← Option.some.inj hkind] at hcall
        cases hcall
      · exact hkind
    refine ⟨h.placed, hold h.start, hold h.commit, hold h.abort, fun u v kind hu hv hcall => ?_,
      fun e he => ?_⟩
    · exact h.once u v kind (hnew hu hcall) (hnew hv hcall) hcall
    · have hsize : g.vertices.size ≤ (g.pushVertex (.query c)).vertices.size := by
        simp [pushVertex]
      exact ⟨Nat.lt_of_lt_of_le (h.edges e he).1 hsize,
        Nat.lt_of_lt_of_le (h.edges e he).2 hsize⟩

/-- An edge that is added leads from vertex to vertex if it is added between vertices. -/
theorem Initialized.ensureEdge [Zero R] {source target : Nat} (h : g.Initialized s)
    (hsource : source < g.vertices.size) (htarget : target < g.vertices.size) :
    (g.ensureEdge source target).1.Initialized s := by
  cases hfind : g.findEdge? source target with
  | some e =>
    rw [Graph.ensureEdge, hfind]
    exact h
  | none =>
    rw [Graph.ensureEdge, hfind]
    refine h.of_kinds rfl (fun _ => rfl) fun e he => ?_
    rcases Array.mem_push.mp he with he | rfl
    · exact h.edges e he
    · exact ⟨hsource, htarget⟩

/-- Counting a hit of a vertex changes no kind. -/
theorem Initialized.hitVertex (h : g.Initialized s) (v : Nat) : (g.hitVertex v).Initialized s :=
  h.of_kinds rfl
    (kind?_modify (f := fun x => { x with windowHits := x.windowHits + 1 }) (fun _ => rfl) v)
    h.edges

/-- Counting a hit of an edge leaves it where it is. -/
theorem Initialized.hitEdge (h : g.Initialized s) (i : Nat) : (g.hitEdge i).Initialized s := by
  refine h.of_kinds rfl (fun _ => rfl) fun e he => ?_
  obtain ⟨j, hj⟩ := Array.mem_iff_getElem?.mp he
  rw [Graph.hitEdge, Array.getElem?_modify] at hj
  split at hj
  · obtain ⟨e', he', rfl⟩ := Option.map_eq_some_iff.mp hj
    exact h.edges e' (Array.mem_of_getElem? he')
  · exact h.edges e (Array.mem_of_getElem? hj)

/-- So linking two vertices keeps a graph initialized. -/
theorem Initialized.link [Zero R] {source target : Nat} (h : g.Initialized s)
    (hsource : source < g.vertices.size) (htarget : target < g.vertices.size) :
    (g.link source target).1.Initialized s := by
  have hhit := ((h.ensureEdge hsource htarget).hitEdge (g.ensureEdge source target).2).hitVertex
    source
  rw [Graph.link]
  dsimp only
  split
  · exact hhit.hitVertex target
  · exact hhit

/-- Measuring a time changes no kind and no edge. -/
theorem Initialized.addTime (h : g.Initialized s) (v nanos : Nat) :
    (g.addTime v nanos).Initialized s :=
  h.of_kinds rfl (kind?_modify (f := fun x => x.addTime nanos) (fun _ => rfl) v) h.edges

/-- Counting a transaction does not either. -/
theorem Initialized.recordTxn (h : g.Initialized s) : g.recordTxn.Initialized s :=
  h.of_kinds rfl (fun _ => rfl) h.edges

/-- What is done to every edge alike leaves the ends of the edges where they are. -/
theorem edges_map {f : Edge R → Edge R} {n : Nat} (hsource : ∀ e, (f e).source = e.source)
    (htarget : ∀ e, (f e).target = e.target)
    (h : ∀ e ∈ g.edges, e.source < n ∧ e.target < n) :
    ∀ e ∈ g.edges.map f, e.source < n ∧ e.target < n := by
  intro e he
  obtain ⟨e', he', rfl⟩ := Array.mem_map.mp he
  rw [hsource, htarget]
  exact h e' he'

/-- Dropping the window sets counters to zero. -/
theorem Initialized.resetWindow (h : g.Initialized s) : g.resetWindow.Initialized s :=
  h.of_kinds rfl (kind?_map fun _ => rfl) (edges_map (fun _ => rfl) (fun _ => rfl) h.edges)

/-- Folding it moves them. -/
theorem Initialized.foldWindow (h : g.Initialized s) : g.foldWindow.Initialized s :=
  h.of_kinds rfl (kind?_map fun _ => rfl) (edges_map (fun _ => rfl) (fun _ => rfl) h.edges)

/-- Clearing the tables leaves kinds and edges alone. -/
theorem Initialized.unsetTables [Scalar R] (h : g.Initialized s) : g.unsetTables.Initialized s :=
  h.of_kinds rfl (kind?_map fun _ => rfl) h.edges

/-- Weighing the edges leaves their ends alone. -/
theorem Initialized.weighEdges [Scalar R] (h : g.Initialized s) : g.weighEdges.Initialized s :=
  h.of_kinds rfl (fun _ => rfl) (edges_map (fun _ => rfl) (fun _ => rfl) h.edges)

end Graph

end TxnPath
