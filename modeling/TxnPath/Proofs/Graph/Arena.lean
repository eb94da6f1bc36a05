import TxnPath.Proofs.Archive.Load
import TxnPath.Proofs.Graph.Calls
import TxnPath.Proofs.Graph.Edits

/-!
# `TxnPath.Proofs.Graph.Arena`: vertices and edges keep their numbers

Vertices and edges are numbered in order of creation, and no operation on a graph takes one away or
changes what it stands for: what vertices stand for and where edges lead is only ever appended to
(`Graph.Extends`, `Edit.extends`). What is appended is new, so that no two vertices stand for one
call and no two edges lead from one vertex to another, whether they were created by operations or
read from an archive (`Graph.Tidy`, `Edit.tidy`).

In tidy graphs a look-up finds what there is: the vertex that stands for a call
(`Tidy.findCall?_iff`), and the edge between two vertices (`Tidy.findEdge?_iff`).
-/

set_option autoImplicit false

namespace TxnPath

variable {R : Type}

/-- Being the same call is symmetric, so that it does not matter which of two calls is looked up and
which one is filed. -/
theorem Call.sameAs_comm (a b : Call) : a.sameAs b = b.sameAs a := by
  rw [Call.sameAs, Call.sameAs, BEq.comm (a := a.statement), BEq.comm (a := a.occurrence),
    BEq.comm (a := a.partitions)]

/-- It is transitive too. Partition sets are compared by their elements, and the rest of a call by
equality. -/
theorem Call.sameAs_trans {a b c : Call} (hab : a.sameAs b = true) (hbc : b.sameAs c = true) :
    a.sameAs c = true := by
  simp only [Call.sameAs, Bool.and_eq_true, beq_iff_eq] at hab hbc ⊢
  exact ⟨⟨hab.1.1.trans hbc.1.1, hab.1.2.trans hbc.1.2⟩, hab.2.trans hbc.2⟩

/-- The vertices that a look-up for a call stops at. -/
theorem VertexKind.any_sameAs_iff {kind : VertexKind} {c : Call} :
    kind.call?.any c.sameAs = true ↔ ∃ d, kind = .query d ∧ c.sameAs d = true := by
  cases kind with
  | query d => simp [VertexKind.call?]
  | start | commit | abort => simp [VertexKind.call?]

namespace Graph

variable {g g' g'' : Graph R} {s : Sentinels} {a b i v : Nat}

/-! ### What vertices stand for and where edges lead -/

/-- What the vertices stand for, in order of creation. -/
def kinds (g : Graph R) : List VertexKind := g.vertices.toList.map Vertex.kind

/-- Where the edges lead from and to, in order of creation. -/
def ends (g : Graph R) : List (Nat × Nat) := g.edges.toList.map Edge.ends

/-- What the list of kinds says about a vertex is what the vertex says about itself. -/
theorem getElem?_kinds (g : Graph R) (v : Nat) : g.kinds[v]? = g.kind? v := by
  rw [kinds, List.getElem?_map, Array.getElem?_toList, kind?]

/-- There is one kind for each vertex. -/
theorem length_kinds (g : Graph R) : g.kinds.length = g.vertices.size := by simp [kinds]

/-- Looking up a call is searching the kinds: hits, times and tables are not looked at. -/
theorem findCall?_eq (g : Graph R) (c : Call) :
    g.findCall? c = g.kinds.findIdx? fun kind => kind.call?.any c.sameAs := by
  rw [findCall?, kinds, List.findIdx?_map, ← List.findIdx?_toArray, Array.toArray_toList]
  rfl

/-- Looking up an edge is searching the pairs of ends. -/
theorem findEdge?_eq (g : Graph R) (a b : Nat) :
    g.findEdge? a b = g.ends.findIdx? fun p => p.1 == a && p.2 == b := by
  rw [findEdge?, ends, List.findIdx?_map, ← List.findIdx?_toArray, Array.toArray_toList]
  rfl

/-- Two graphs of the same vertices and edges, whatever was counted and derived. -/
structure SameLayout (g g' : Graph R) : Prop extends SameKinds g g' where
  sentinels : g'.sentinels = g.sentinels
  ends : g'.ends = g.ends

/-- A graph is laid out as itself. -/
theorem SameLayout.refl (g : Graph R) : SameLayout g g := ⟨.refl g, rfl, rfl⟩

/-- Layouts can be compared one operation after the other. -/
theorem SameLayout.trans (h : SameLayout g g') (h' : SameLayout g' g'') : SameLayout g g'' :=
  ⟨h.toSameKinds.trans h'.toSameKinds, h'.sentinels.trans h.sentinels, h'.ends.trans h.ends⟩

/-- In two graphs of one layout the vertices stand for the same. -/
theorem SameLayout.kinds (h : SameLayout g g') : g'.kinds = g.kinds :=
  List.ext_getElem? fun v => by rw [getElem?_kinds, getElem?_kinds, h.kind]

/-- The second graph has the vertices and edges of the first under their numbers, and perhaps more
behind them. -/
structure Extends (g g' : Graph R) : Prop where
  key : g'.key = g.key
  partitions : g'.partitions = g.partitions
  sentinels : g'.sentinels = g.sentinels
  kinds : g.kinds <+: g'.kinds
  ends : g.ends <+: g'.ends

/-- Nothing is appended to a graph whose layout stays. Most operations are shown to extend a graph
in this way. -/
theorem SameLayout.extends (h : SameLayout g g') : Extends g g' :=
  ⟨h.key, h.partitions, h.sentinels, h.kinds ▸ List.prefix_rfl, h.ends ▸ List.prefix_rfl⟩

/-- A graph extends itself. -/
theorem Extends.refl (g : Graph R) : Extends g g := (SameLayout.refl g).extends

/-- Whatever is appended first is still there when more has been appended. -/
theorem Extends.trans (h : Extends g g') (h' : Extends g' g'') : Extends g g'' where
  key := h'.key.trans h.key
  partitions := h'.partitions.trans h.partitions
  sentinels := h'.sentinels.trans h.sentinels
  kinds := h.kinds.trans h'.kinds
  ends := h.ends.trans h'.ends

/-- The base partition of a graph is part of its key, and that never changes. -/
theorem Extends.base (h : Extends g g') : g'.base = g.base := congrArg GraphKey.base h.key

/-- The number of vertices does not go down. -/
theorem Extends.size (h : Extends g g') : g.vertices.size ≤ g'.vertices.size := by
  rw [← length_kinds, ← length_kinds]
  exact h.kinds.length_le

/-- A call that has a vertex keeps it. -/
theorem Extends.findCall? {c : Call} (h : Extends g g') (hfind : g.findCall? c = some v) :
    g'.findCall? c = some v := by
  rw [findCall?_eq] at hfind ⊢
  exact h.kinds.findIdx?_eq_some hfind

/-! ### What operations do to the layout -/

section Layout

/-- The time of a query is added to a vertex that is there. -/
theorem sameLayout_addTime (g : Graph R) (v nanos : Nat) : SameLayout g (g.addTime v nanos) :=
  ⟨sameKinds_addTime g v nanos, rfl, rfl⟩

/-- Counting a transaction touches neither arena. -/
theorem sameLayout_recordTxn (g : Graph R) : SameLayout g g.recordTxn :=
  ⟨sameKinds_recordTxn g, rfl, rfl⟩

/-- Folding the window moves hits from one counter to another. -/
theorem sameLayout_foldWindow (g : Graph R) : SameLayout g g.foldWindow :=
  ⟨sameKinds_foldWindow g, rfl, by simp [ends, foldWindow, Edge.ends, Function.comp_def]⟩

/-- Dropping the window sets counters to zero. -/
theorem sameLayout_resetWindow (g : Graph R) : SameLayout g g.resetWindow :=
  ⟨⟨rfl, rfl, kind?_map fun _ => rfl⟩, rfl,
    by simp [ends, resetWindow, Edge.ends, Function.comp_def]⟩

/-- Deriving probabilities writes tables and weights, which are no part of the layout. -/
theorem SameButTables.sameLayout [Scalar R] (h : SameButTables g.unsetTables.weighEdges g') :
    SameLayout g g' where
  toSameKinds := h.sameKinds
  sentinels := by rw [h.frame]; rfl
  ends := by simp [ends, h.edges, weighEdges, unsetTables, Edge.ends, Function.comp_def]

/-- Looking up a call for a query appends the vertex that stands for it, unless there is one
already. -/
theorem kinds_ensureCall (g : Graph R) (c : Call) :
    (g.ensureCall c).1.kinds = g.kinds ++ if (g.findCall? c).isSome then [] else [.query c] := by
  rw [ensureCall]
  cases g.findCall? c with
  | some v => exact (List.append_nil _).symm
  | none => simp [kinds, pushVertex, Vertex.new]

/-- So it extends the graph, by one vertex or by none. -/
theorem extends_ensureCall (g : Graph R) (c : Call) : Extends g (g.ensureCall c).1 := by
  have hkinds : g.kinds <+: (g.ensureCall c).1.kinds := by
    rw [kinds_ensureCall]
    exact List.prefix_append _ _
  rcases ensureCall_cases g c with ⟨v, hv⟩ | ⟨_, hnew⟩
  · rw [hv]
    exact .refl g
  · rw [hnew] at hkinds ⊢
    exact ⟨rfl, rfl, rfl, hkinds, List.prefix_rfl⟩

/-- The vertex that a call is given is found again. -/
theorem findCall?_ensureCall (g : Graph R) (c : Call) :
    (g.ensureCall c).1.findCall? c = some (g.ensureCall c).2 := by
  rw [ensureCall]
  cases hfind : g.findCall? c with
  | some v => exact hfind
  | none =>
    rw [findCall?_eq] at hfind
    have hself : c.sameAs c = true := by simp [Call.sameAs]
    have hkinds : (g.pushVertex (.query c)).kinds = g.kinds ++ [.query c] := by
      simp [kinds, pushVertex, Vertex.new]
    rw [findCall?_eq, hkinds, List.findIdx?_append, hfind, ← length_kinds]
    simp [VertexKind.call?, hself]

variable [Zero R]

/-- Linking two vertices leaves the sentinels alone. -/
theorem sentinels_link (g : Graph R) (a b : Nat) : (g.link a b).1.sentinels = g.sentinels := by
  have hedge : (g.ensureEdge a b).1.sentinels = g.sentinels := by
    unfold ensureEdge
    split <;> rfl
  rw [link]
  dsimp only
  split <;> exact hedge

/-- A step gets an edge of its own unless there is one. -/
theorem ends_link (g : Graph R) (a b : Nat) :
    (g.link a b).1.ends = g.ends ++ if (a, b) ∈ g.ends then [] else [(a, b)] := by
  have hedge : (g.link a b).1.ends = (g.ensureEdge a b).1.ends := by
    rw [ends, ends, edges_link, ends_modify]
  rw [hedge]
  rcases ensureEdge_cases g a b with ⟨i, e, hensure, he, hends⟩ | ⟨hnew, hensure⟩
  · have hmem : (a, b) ∈ g.ends :=
      hends ▸ List.mem_map_of_mem (Array.mem_toList_iff.mpr (Array.mem_of_getElem? he))
    rw [hensure, if_pos hmem, List.append_nil]
  · rw [hensure, if_neg (show (a, b) ∉ g.ends from hnew)]
    simp [ends, Edge.ends]

/-- Linking two vertices appends their edge, unless there is one already, and vertices not at all.
-/
theorem extends_link (g : Graph R) (a b : Nat) : Extends g (g.link a b).1 where
  key := (sameKinds_link g a b).key
  partitions := (sameKinds_link g a b).partitions
  sentinels := sentinels_link g a b
  kinds := (List.ext_getElem? fun v => by rw [getElem?_kinds, getElem?_kinds, kind?_link] :
    (g.link a b).1.kinds = g.kinds) ▸ List.prefix_rfl
  ends := ends_link g a b ▸ List.prefix_append _ _

/-- After linking there is an edge from the one vertex to the other, whether it was there before or
not. -/
theorem mem_ends_link (g : Graph R) (a b : Nat) : (a, b) ∈ (g.link a b).1.ends := by
  rw [ends_link]
  split
  case isTrue hmem => exact List.mem_append_left _ hmem
  case isFalse => exact List.mem_append_right _ (List.mem_singleton_self _)

/-- A step that was taken before changes counters only. -/
theorem sameLayout_link (h : (a, b) ∈ g.ends) : SameLayout g (g.link a b).1 where
  toSameKinds := sameKinds_link g a b
  sentinels := sentinels_link g a b
  ends := by rw [ends_link, if_pos h, List.append_nil]

/-- By induction on what is recorded, recording extends a graph. -/
theorem Recording.extends {links : List (Nat × Nat)} (h : Recording g links g') :
    Extends g g' := by
  induction h with
  | refl => exact .refl _
  | call c _ ih => exact ih.trans (extends_ensureCall _ c)
  | time v nanos _ ih => exact ih.trans (sameLayout_addTime _ v nanos).extends
  | link _ _ _ ih => exact ih.trans (extends_link _ _ _)
  | txn _ ih => exact ih.trans (sameLayout_recordTxn _).extends

end Layout

/-- An operation on an initialized graph leaves its vertices and edges as they are. -/
theorem Edit.extends [Scalar R] {e : Edit} (h : g.Initialized s) (hrun : e.run g = .ok g') :
    Extends g g' := by
  rcases e.run_cases h hrun with ⟨_, hrecording, _⟩ | ⟨_, rfl⟩ | hsame | ⟨_, hsame⟩
  · exact hrecording.extends
  · exact (sameLayout_resetWindow g).extends
  · exact hsame.sameLayout.extends
  · exact ((sameLayout_foldWindow g).trans hsame.sameLayout).extends

/-! ### Tidy graphs -/

/-- No two vertices stand for calls that are not told apart. -/
def CallsApart (g : Graph R) : Prop :=
  ∀ u v c c', g.kind? u = some (.query c) → g.kind? v = some (.query c') →
    c.sameAs c' = true → u = v

/-- A fresh graph has only sentinels, which stand for no call. -/
theorem callsApart_fresh (procedure : ProcedureId) (base partitions : Nat) :
    (fresh procedure base partitions : Graph R).CallsApart := by
  intro u _ c _ hu
  rcases u with _ | _ | _ | u <;> cases hu

/-- That the vertices of a graph stand for different calls is said of its kinds alone. -/
theorem CallsApart.of_sameKinds (h : g.CallsApart) (hsame : SameKinds g g') : g'.CallsApart :=
  fun u v c c' hu hv => h u v c c' (hsame.kind u ▸ hu) (hsame.kind v ▸ hv)

/-- A call gets a vertex of its own only if there is none that it cannot be told from. So of two
vertices that stand for calls which cannot be told apart neither is the new one, unless both are. -/
theorem CallsApart.ensureCall (h : g.CallsApart) (c : Call) : (g.ensureCall c).1.CallsApart := by
  rcases ensureCall_cases g c with ⟨v, hv⟩ | ⟨hfind, hnew⟩
  · rw [hv]
    exact h
  rw [hnew]
  have hother : ∀ {v c'}, g.kind? v = some (.query c') → c.sameAs c' = false := by
    intro v c' hv
    obtain ⟨x, hx, hkind⟩ := Option.map_eq_some_iff.mp hv
    have hnone := Array.findIdx?_eq_none_iff.mp hfind x (Array.mem_of_getElem? hx)
    rwa [hkind] at hnone
  -- The new vertex is the last one, and stands for the call.
  have hcases : ∀ {v c'}, (g.pushVertex (.query c)).kind? v = some (.query c') →
      v = g.vertices.size ∧ c' = c ∨ g.kind? v = some (.query c') := by
    intro v c' hv
    rw [kind?_pushVertex] at hv
    split at hv
    case isTrue hlast =>
      cases hv
      exact .inl ⟨hlast, rfl⟩
    case isFalse => exact .inr hv
  intro u v a b hu hv hsame
  rcases hcases hu with ⟨rfl, rfl⟩ | hu' <;> rcases hcases hv with ⟨rfl, rfl⟩ | hv'
  · rfl
  · rw [hother hv'] at hsame
    cases hsame
  · rw [Call.sameAs_comm, hother hu'] at hsame
    cases hsame
  · exact h u v a b hu' hv' hsame

/-- An initialized graph in which neither two vertices nor two edges are alike. So a look-up finds
at most one of each, and creating what was not found keeps it so. -/
structure Tidy (g : Graph R) (s : Sentinels) : Prop where
  initialized : g.Initialized s
  apart : g.CallsApart
  distinct : g.ends.Nodup

/-- A fresh graph is tidy: its sentinels are its first three vertices, and it has no edges. -/
theorem tidy_fresh (procedure : ProcedureId) (base partitions : Nat) :
    (fresh procedure base partitions : Graph R).Tidy ⟨0, 1, 2⟩ :=
  ⟨initialized_fresh procedure base partitions, callsApart_fresh procedure base partitions, .nil⟩

/-- Tidiness is a property of the layout and of the key. -/
theorem Tidy.of_sameLayout (h : g.Tidy s) (hsame : SameLayout g g') : g'.Tidy s where
  initialized := by
    refine h.initialized.of_kinds hsame.sentinels hsame.kind fun e he => ?_
    have hmem : e.ends ∈ g.ends := hsame.ends ▸ List.mem_map_of_mem (Array.mem_toList_iff.mpr he)
    obtain ⟨e₀, he₀, hends⟩ := List.mem_map.mp hmem
    obtain ⟨hsource, htarget⟩ := Prod.mk.inj hends
    exact hsource ▸ htarget ▸ h.initialized.edges e₀ (Array.mem_toList_iff.mp he₀)
  apart := h.apart.of_sameKinds hsame.toSameKinds
  distinct := hsame.ends ▸ h.distinct

/-- Recording keeps a graph tidy. By induction on what is recorded: a vertex or an edge is added
only where the look-up has found none, and everything else keeps the layout. -/
theorem Tidy.recording [Zero R] {links : List (Nat × Nat)} (h : g.Tidy s)
    (hrecording : Recording g links g') : g'.Tidy s := by
  induction hrecording with
  | refl => exact h
  | @call g₁ _ c _ ih =>
    refine ⟨ih.initialized.ensureCall c, ih.apart.ensureCall c, ?_⟩
    rcases ensureCall_cases g₁ c with ⟨v, hv⟩ | ⟨_, hnew⟩
    -- There is a vertex for the call: no edge is added in either case.
    · rw [hv]
      exact ih.distinct
    · rw [hnew]
      exact ih.distinct
  | @time g₁ _ v nanos _ ih => exact ih.of_sameLayout (sameLayout_addTime g₁ v nanos)
  | @link g₁ _ u v _ hu hv ih =>
    refine ⟨ih.initialized.link hu hv, ih.apart.of_sameKinds (sameKinds_link g₁ u v), ?_⟩
    rw [ends_link]
    split
    case isTrue => rw [List.append_nil]; exact ih.distinct
    -- The edge is appended because the look-up found no other between the two.
    case isFalse hnew => exact List.concat_eq_append ▸ ih.distinct.concat hnew
  | @txn g₁ _ _ ih => exact ih.of_sameLayout (sameLayout_recordTxn g₁)

/-- Operations keep a graph tidy. -/
theorem Edit.tidy [Scalar R] {e : Edit} (h : g.Tidy s) (hrun : e.run g = .ok g') : g'.Tidy s := by
  rcases e.run_cases h.initialized hrun with ⟨_, hrecording, _⟩ | ⟨_, rfl⟩ | hsame | ⟨_, hsame⟩
  · exact h.recording hrecording
  · exact h.of_sameLayout (sameLayout_resetWindow g)
  · exact h.of_sameLayout hsame.sameLayout
  · exact h.of_sameLayout ((sameLayout_foldWindow g).trans hsame.sameLayout)

end Graph

/-- The graph of a well-formed record is tidy. The record compares each vertex with those before it,
which is enough, as telling calls apart is symmetric. -/
theorem GraphRecord.WellFormed.tidy [Zero R] {r : GraphRecord} {p : Procedure} {s : Sentinels}
    (h : r.WellFormed p s) (id : ProcedureId) : (r.skeleton id s : Graph R).Tidy s where
  initialized := h.initialized id
  apart := by
    intro u v c c' hu hv hsame
    rw [kind?_skeleton] at hu hv
    obtain ⟨x, hx, hxkind⟩ := Option.map_eq_some_iff.mp hu
    obtain ⟨y, hy, hykind⟩ := Option.map_eq_some_iff.mp hv
    obtain ⟨hulen, rfl⟩ := List.getElem?_eq_some_iff.mp hx
    obtain ⟨hvlen, rfl⟩ := List.getElem?_eq_some_iff.mp hy
    rcases Nat.lt_trichotomy u v with hlt | heq | hlt
    -- The record is checked from front to back, so that the earlier of two vertices comes first.
    · have hclash := List.pairwise_iff_getElem.mp h.apart u v hulen hvlen hlt
      rw [hxkind, hykind] at hclash
      exact absurd ((Call.sameAs_comm c' c).trans hsame) (Bool.eq_false_iff.mp hclash)
    · exact heq
    · have hclash := List.pairwise_iff_getElem.mp h.apart v u hvlen hulen hlt
      rw [hxkind, hykind] at hclash
      exact absurd hsame (Bool.eq_false_iff.mp hclash)
  distinct := by
    have hends : (r.skeleton id s : Graph R).ends = r.edges.map EdgeRecord.ends := by
      rw [Graph.ends, skeleton, List.map_map]
      rfl
    exact hends ▸ h.distinct

namespace Graph

variable {g g' : Graph R} {s : Sentinels} {a b i v : Nat}

/-- A graph that was read from an archive is tidy, since archives with two vertices for one call, or
two edges with the same ends, are refused. -/
theorem tidy_load [Scalar R] {r : GraphRecord} {c : Catalog} (hload : r.load c = .ok (.ok g)) :
    ∃ s, g.Tidy s := by
  obtain ⟨p, s, _, _, hformed, hderive⟩ := GraphRecord.load_ok hload
  have htidy := hformed.tidy (R := R) p.id
  exact ⟨s, htidy.of_sameLayout (htidy.initialized.derive_same hderive).2.sameLayout⟩

/-! ### Look-ups -/

/-- A vertex that is found for a call stands for a call that it cannot be told from. -/
theorem findCall?_ok {c : Call} (hfind : g.findCall? c = some v) :
    ∃ d, g.kind? v = some (.query d) ∧ c.sameAs d = true := by
  obtain ⟨hlt, hany, _⟩ := Array.findIdx?_eq_some_iff_getElem.mp hfind
  obtain ⟨d, hd, hsame⟩ := VertexKind.any_sameAs_iff.mp hany
  exact ⟨d, by rw [kind?, Array.getElem?_eq_getElem hlt, Option.map_some, hd], hsame⟩

/-- In a graph in which calls are told apart, the vertex of a call is the one that stands for it. A
look-up gives the first that does, and there is no other. -/
theorem Tidy.findCall?_iff (h : g.Tidy s) {c : Call} :
    g.findCall? c = some v ↔ ∃ d, g.kind? v = some (.query d) ∧ c.sameAs d = true := by
  refine ⟨findCall?_ok, ?_⟩
  rintro ⟨d, hd, hsame⟩
  cases hfind : g.findCall? c with
  | some u =>
    obtain ⟨d', hd', hsame'⟩ := findCall?_ok hfind
    have hboth := Call.sameAs_trans (Call.sameAs_comm d' c ▸ hsame') hsame
    rw [h.apart u v d' d hd' hd hboth]
  | none =>
    obtain ⟨x, hx, hxkind⟩ := Option.map_eq_some_iff.mp hd
    have hnone := Array.findIdx?_eq_none_iff.mp hfind x (Array.mem_of_getElem? hx)
    rw [hxkind] at hnone
    exact absurd hsame (Bool.eq_false_iff.mp hnone)

/-- In a graph of different edges, the edge between two vertices is the one that has these ends. So
a number found is determined by the ends, whatever the order of the search. -/
theorem Tidy.findEdge?_iff (h : g.Tidy s) :
    g.findEdge? a b = some i ↔ g.ends[i]? = some (a, b) := by
  have hmatch : ∀ p : Nat × Nat, (p.1 == a && p.2 == b) = true ↔ p = (a, b) := fun p => by
    rw [Bool.and_eq_true, beq_iff_eq, beq_iff_eq, Prod.ext_iff]
  rw [findEdge?_eq, List.findIdx?_eq_some_iff_getElem]
  constructor
  · rintro ⟨hlt, hends, _⟩
    rw [List.getElem?_eq_getElem hlt, (hmatch _).mp hends]
  · intro hends
    obtain ⟨hlt, heq⟩ := List.getElem?_eq_some_iff.mp hends
    refine ⟨hlt, (hmatch _).mpr heq, fun j hj hmatches => ?_⟩
    -- An earlier edge with these ends would be the same one.
    have hsame : g.ends[j] = g.ends[i] := ((hmatch _).mp hmatches).trans heq.symm
    exact absurd ((List.Nodup.getElem_inj_iff h.distinct).mp hsame) (Nat.ne_of_lt hj)

end Graph

end TxnPath
