import TxnPath.Proofs.Catalog
import TxnPath.Proofs.Graph.Arena
import TxnPath.Proofs.Graph.Rederive

/-!
# `TxnPath.Proofs.Archive.RoundTrip`: graphs are stored without loss

A record keeps what vertices and edges are and the totals, and drops the window and everything
derived. `round_trip` says that nothing is lost: a graph that grew from traces and was then recomputed
is loaded from its record as it was, and a record that can be loaded is that of the loaded graph.

Two things carry this. What is derived is a function of what is stored, so that deriving twice is
deriving once (`Graph.Initialized.derive_derive`). And the record of a graph that grew from traces is
well formed (`Graph.Named.wellFormed`), as the calls of its vertices are told apart and known to the
procedure.
-/

set_option autoImplicit false

namespace TxnPath

variable {R : Type}

/-- Queries are resolved to calls of statements that the procedure has. A statement that it lacks is
an error. -/
theorem Query.resolve_known {q : Query} {p : Procedure} {r : Router} {base : Nat}
    {called : List StatementId} {c : Call} (h : q.resolve p r base called = .ok c) :
    (p.statement? c.statement).isSome := by
  rw [Query.resolve] at h
  split at h
  · cases h
  case h_2 s hs =>
    split at h
    · cases h
    · split at h
      · cases h
      · cases h
        rw [Procedure.statement?_id hs, hs]
        rfl

/-- What is stored of a vertex. -/
def Vertex.toRecord (x : Vertex R) : VertexRecord := ⟨x.kind, x.totalHits, x.execNanos, x.execSamples⟩

/-- What is stored of an edge. -/
def Edge.toRecord (e : Edge R) : EdgeRecord := ⟨e.source, e.target, e.totalHits⟩

namespace Graph

variable {g g' : Graph R} {s : Sentinels} {n : Nat} {p : Procedure}

/-! ### Graphs that grew from traces -/

/-- The graphs of a procedure for `n` partitions that traces and recomputations lead to. These are
the graphs that there are to be stored. -/
inductive Grown [Scalar R] (p : Procedure) (n : Nat) : Graph R → Prop
  | fresh (base : Nat) : Grown p n (fresh p.id base n)
  | replay {g g' : Graph R} {t : Trace} {r : Router} {path : List Nat} :
    Grown p n g → g.replay t p r = .ok (g', .ok path) → Grown p n g'
  | recompute {g g' : Graph R} : Grown p n g → g.recompute = .ok g' → Grown p n g'

/-- A graph of a procedure, whose calls are told apart and known to the procedure. It is what
loading asks of the record of a graph besides its sentinels and edges. -/
structure Named (g : Graph R) (p : Procedure) (n : Nat) : Prop where
  procedure : g.procedure = p.id
  partitions : g.partitions = n
  known : ∀ v c, g.kind? v = some (.query c) → (p.statement? c.statement).isSome
  apart : g.CallsApart

/-- A graph that grew from traces holds their paths. -/
theorem Grown.recorded [Scalar R] (h : g.Grown p n) : ∃ paths m, g.Recorded ⟨0, 1, 2⟩ paths m := by
  induction h with
  | fresh base => exact ⟨[], 0, recorded_fresh p.id base n⟩
  | replay _ hrun ih =>
    obtain ⟨paths, m, hrecorded⟩ := ih
    exact ⟨_, _, (hrecorded.replay hrun).1⟩
  | recompute _ hrun ih =>
    obtain ⟨paths, m, hrecorded⟩ := ih
    obtain ⟨g₁, hrun', hrecorded'⟩ := hrecorded.recompute
    obtain rfl := Except.ok.inj (hrun.symm.trans hrun')
    exact ⟨paths, m, hrecorded'⟩

/-- A fresh graph has no calls that would have to be known. -/
theorem named_fresh (p : Procedure) (base n : Nat) : (fresh p.id base n : Graph R).Named p n where
  procedure := rfl
  partitions := rfl
  known := fun v c hc => by
    rcases v with _ | _ | _ | v <;> cases hc
  apart := callsApart_fresh p.id base n

/-- That the calls of a graph are known to its procedure is said of the kinds of its vertices. -/
theorem Named.of_sameKinds (h : g.Named p n) (hsame : SameKinds g g') : g'.Named p n where
  procedure := (congrArg GraphKey.procedure hsame.key).trans h.procedure
  partitions := hsame.partitions.trans h.partitions
  known := fun v c hc => h.known v c (hsame.kind v ▸ hc)
  apart := h.apart.of_sameKinds hsame

/-- A vertex for a call of a statement that the procedure has. -/
theorem Named.ensureCall {c : Call} (h : g.Named p n)
    (hc : (p.statement? c.statement).isSome) : (g.ensureCall c).1.Named p n := by
  have happart := h.apart.ensureCall c
  rcases ensureCall_cases g c with ⟨v, hv⟩ | ⟨_, hnew⟩
  · rw [hv]
    exact h
  rw [hnew] at happart ⊢
  refine ⟨h.procedure, h.partitions, fun v c' hv => ?_, happart⟩
  rw [kind?_pushVertex] at hv
  split at hv
  · cases hv
    exact hc
  · exact h.known v c' hv

/-- What names a graph survives replays. -/
theorem keptBy_named [Zero R] (r : Router) : KeptBy (R := R) (fun g => g.Named p n) p r where
  kinds := fun hsame h => h.of_sameKinds hsame
  call := fun hresolve h => h.ensureCall (Query.resolve_known hresolve)

/-- The calls of a graph that grew from traces are known to their procedure, and told apart. -/
theorem Grown.named [Scalar R] (h : g.Grown p n) : g.Named p n := by
  induction h with
  | fresh base => exact named_fresh p base n
  | replay _ hrun ih => exact (keptBy_named _).replay hrun ih
  | recompute hgrown hrun ih =>
    obtain ⟨paths, m, hrecorded⟩ := hgrown.recorded
    exact ih.of_sameKinds (hrecorded.sameKinds_recompute hrun)

/-! ### The record of a graph -/

/-- What is stored of a graph of a procedure. -/
def recordOf (g : Graph R) (p : Procedure) : GraphRecord where
  procedure := p.name
  procedureId := p.id
  base := g.base
  partitions := g.partitions
  txns := g.txns - g.windowTxns
  vertices := g.vertices.toList.map Vertex.toRecord
  edges := g.edges.toList.map Edge.toRecord

/-- A graph whose procedure is in the catalog has a record. -/
theorem toRecord_eq {c : Catalog} (hp : c.procedure g.procedure = .ok p) :
    g.toRecord c = .ok (g.recordOf p) := by
  rw [toRecord, hp]
  rfl

/-- In the record the vertices stand for what they stand for in the graph. -/
theorem kind?_recordOf (g : Graph R) (p : Procedure) (v : Nat) :
    (g.recordOf p).kind? v = g.kind? v := by
  rw [GraphRecord.kind?, recordOf, List.getElem?_map, Option.map_map, Array.getElem?_toList]
  rfl

/-- No two vertices of a graph are alike. -/
theorem Named.clashes_eq_false (h : g.Named p n) (hinit : g.Initialized s) {u v : Nat}
    {kind kind' : VertexKind} (hu : g.kind? u = some kind) (hv : g.kind? v = some kind')
    (hne : u ≠ v) : kind'.clashes kind = false := by
  rw [← Bool.not_eq_true]
  intro hclash
  cases kind' with
  | query c =>
    cases kind with
    | query c' => exact hne (h.apart v u c c' hv hu hclash).symm
    | start | commit | abort => cases hclash
  | start | commit | abort =>
    obtain rfl := eq_of_beq (show (kind == _) = true from hclash)
    exact hne (hinit.once u v _ hu hv rfl)

/-- The record of a graph that holds paths is well formed. Vertices are told apart as in the graph,
and edges are distinct since a graph has an edge per step taken. -/
theorem Named.wellFormed {paths : List (List Nat)} {m : Nat} (h : g.Named p n)
    (hrecorded : g.Recorded s paths m) : (g.recordOf p).WellFormed p s where
  known := fun v hv => by
    obtain ⟨x, hx, rfl⟩ := List.mem_map.mp hv
    obtain ⟨i, hi⟩ := Array.mem_iff_getElem?.mp (Array.mem_toList_iff.mp hx)
    have hkind : g.kind? i = some x.kind := by rw [kind?, hi, Option.map_some]
    show x.kind.isKnown p = true
    cases hx : x.kind with
    -- A call is of a statement of the procedure, and the sentinels are known to all.
    | query c => exact h.known i c (hx ▸ hkind)
    | start | commit | abort => rfl
  apart := by
    refine List.pairwise_iff_getElem.mpr fun i j hi hj hij => ?_
    have hkind : ∀ v (hv : v < (g.recordOf p).vertices.length),
        g.kind? v = some (g.recordOf p).vertices[v].kind := fun v hv => by
      rw [← kind?_recordOf g p, GraphRecord.kind?, List.getElem?_eq_getElem hv, Option.map_some]
    exact h.clashes_eq_false hrecorded.initialized (hkind i hi) (hkind j hj) (Nat.ne_of_lt hij)
  start := (kind?_recordOf g p _).trans hrecorded.initialized.start
  commit := (kind?_recordOf g p _).trans hrecorded.initialized.commit
  abort := (kind?_recordOf g p _).trans hrecorded.initialized.abort
  inside := fun e he => by
    obtain ⟨x, hx, rfl⟩ := List.mem_map.mp he
    simpa [recordOf, Edge.toRecord] using hrecorded.initialized.edges x (Array.mem_toList_iff.mp hx)
  distinct := by
    rw [recordOf, List.map_map]
    exact hrecorded.tallied.distinct

/-- The record of a graph without a window leads back to the graph, but for what is derived. A
record adds the window to the totals, so that nothing can be told from it of how they were split;
here the window is empty. -/
theorem Folded.skeleton [Scalar R] (h : g.Folded) (hprocedure : g.procedure = p.id)
    (hplaced : g.sentinels = some s) :
    ((g.recordOf p).skeleton p.id s).unsetTables.weighEdges = g.unsetTables.weighEdges := by
  let g₁ : Graph R := (g.recordOf p).skeleton p.id s
  have hvertices : g₁.unsetTables.vertices = g.unsetTables.vertices := by
    refine Array.toList_inj.mp ?_
    simp only [g₁, unsetTables, GraphRecord.skeleton, recordOf, Array.toList_map, List.map_map]
    refine List.map_congr_left fun x hx => ?_
    have hwindow := h.vertices x (Array.mem_toList_iff.mp hx)
    simp [Vertex.toRecord, VertexRecord.vertex, Vertex.new, hwindow]
  have hedges : g₁.edges.map Edge.unweighed = g.edges.map Edge.unweighed := by
    refine Array.toList_inj.mp ?_
    simp only [g₁, GraphRecord.skeleton, recordOf, Array.toList_map, List.map_map]
    refine List.map_congr_left fun e he => ?_
    have hwindow := h.edges e (Array.mem_toList_iff.mp he)
    simp [Edge.toRecord, EdgeRecord.edge, Edge.unweighed, hwindow]
  -- Cleared of their tables and weights, the two graphs have the same vertices, and edges that are
  -- weighed alike.
  have hunset : g₁.unsetTables = { g.unsetTables with edges := g₁.edges } := by
    show ({ g₁ with vertices := g₁.unsetTables.vertices } : Graph R) = _
    rw [hvertices]
    simp only [g₁, GraphRecord.skeleton, recordOf, unsetTables, hprocedure, hplaced, h.txns,
      Nat.sub_zero]
  show g₁.unsetTables.weighEdges = _
  rw [hunset]
  exact weighEdges_congr hedges

/-- A graph that differs from that of a record in what is derived has this record. What is stored
are counters and kinds, and no probabilities. -/
theorem SameButTables.recordOf_eq [Scalar R] {r : GraphRecord} (hname : p.name = r.procedure)
    (hid : r.procedureId = p.id)
    (h : SameButTables (r.skeleton p.id s : Graph R).unsetTables.weighEdges g) :
    g.recordOf p = r := by
  have hvertices : g.vertices.toList.map Vertex.toRecord = r.vertices := by
    have hmap := congrArg Array.toList (h.map_vertices (f := Vertex.toRecord) fun _ _ => rfl)
    rw [Array.toList_map] at hmap
    rw [hmap]
    simp only [weighEdges, unsetTables, GraphRecord.skeleton, Array.toList_map, List.map_map]
    exact List.map_id'' (fun v => rfl) r.vertices
  have hedges : g.edges.toList.map Edge.toRecord = r.edges := by
    rw [h.edges]
    simp only [weighEdges, GraphRecord.skeleton, unsetTables, Array.toList_map, List.map_map]
    exact List.map_id'' (fun e => rfl) r.edges
  rw [recordOf, hvertices, hedges, hname, ← hid, h.frame]
  rfl

end Graph

/-! ### Round trips -/

open TxnPath.Graph

variable [Scalar R] {c : Catalog}

/-- What is left after recomputing a graph that grew from traces. -/
theorem Graph.Grown.recomputed {p : Procedure} {n : Nat} {g₀ g : Graph R} (h : g₀.Grown p n)
    (hrun : g₀.recompute = .ok g) :
    g.Folded ∧ g.derive = .ok g ∧ g.Named p n ∧ ∃ paths m, g.Recorded ⟨0, 1, 2⟩ paths m := by
  obtain ⟨paths, m, hrecorded⟩ := h.recorded
  have hfold := hrecorded.initialized.foldWindow
  have hgrown : g.Grown p n := .recompute h hrun
  exact ⟨(hfold.derive_same hrun).2.folded (folded_foldWindow g₀), hfold.derive_derive hrun,
    hgrown.named, hgrown.recorded⟩

namespace GraphRecord

/-- Graphs are stored without loss. A graph that grew from traces and was then recomputed has nothing
in its window, and is loaded from its record as it was. A record that can be loaded, and that has
the number of its procedure, is the record of the loaded graph. -/
theorem round_trip (hvalid : c.validate = .ok ())
    (hnames : (c.procedures.map Procedure.name).Nodup) :
    (∀ p ∈ c.procedures, ∀ g₀ g : Graph R, g₀.Grown p c.partitions → g₀.recompute = .ok g →
        g.Folded ∧ ∃ r, g.toRecord c = .ok r ∧ r.load c = .ok (.ok g))
      ∧ ∀ (r : GraphRecord) (p : Procedure) (g : Graph R), r.load c = .ok (.ok g) →
        c.procedureNamed r.procedure = .ok p → r.procedureId = p.id → g.toRecord c = .ok r := by
  constructor
  -- The record is built into its skeleton, and what is derived for the skeleton is what was derived
  -- for the graph.
  · intro p hp g₀ g hgrown hrun
    obtain ⟨hfolded, hderive, hnamed, paths, m, hrecorded⟩ := hgrown.recomputed hrun
    have hfound : c.procedure g.procedure = .ok p :=
      hnamed.procedure ▸ Catalog.procedure_of_mem hvalid hp
    refine ⟨hfolded, g.recordOf p, toRecord_eq hfound, ?_⟩
    have hbuild : (g.recordOf p).build p = .ok ((g.recordOf p).skeleton p.id ⟨0, 1, 2⟩ : Graph R) :=
      build_ok_iff.mpr ⟨_, hnamed.wellFormed hrecorded, rfl⟩
    rw [load_built (Catalog.procedureNamed_of_mem hnames hp) hnamed.partitions hbuild,
      derive_congr (hfolded.skeleton hnamed.procedure hrecorded.initialized.placed), hderive]
    rfl
  · -- Deriving probabilities changes nothing that is stored.
    intro r p g hload hp hid
    obtain ⟨p', s, hp', _, hformed, hderive⟩ := load_ok hload
    obtain rfl := Except.ok.inj (hp.symm.trans hp')
    obtain ⟨hmem, hname⟩ := Catalog.procedureNamed_ok hp
    have hsame := ((hformed.initialized p.id).derive_same hderive).2
    have hprocedure : g.procedure = p.id := by
      rw [hsame.frame]
      rfl
    rw [toRecord_eq (hprocedure ▸ Catalog.procedure_of_mem hvalid hmem), hsame.recordOf_eq hname hid]

/-- A graph that grew from one trace is loaded from its record, and a record that can be loaded,
whatever it holds, is that of the loaded graph. -/
theorem round_trip_pay :
    (∃ (g₀ g : Graph Rat) (r : GraphRecord), g₀.Grown payment pay.partitions
        ∧ g₀.recompute = .ok g ∧ g.txns = 1 ∧ g.toRecord pay = .ok r ∧ r.load pay = .ok (.ok g))
      ∧ ∃ g : Graph Rat, stray.load pay = .ok (.ok g) ∧ g.toRecord pay = .ok stray := by
  have htrip := round_trip (R := Rat) (c := pay) rfl (by decide)
  refine ⟨?_, ?_⟩
  · let t : Trace := ⟨1, 0, [], [⟨0, [], 0, false, some 7⟩], false⟩
    have hreplay : ((fresh 0 0 1 : Graph Rat).replay t payment payRouter).toOption.map
        (fun out => out.2.toOption) = some (some [0, 3, 1]) := by
      decide +kernel
    rcases hrun : (fresh 0 0 1 : Graph Rat).replay t payment payRouter with f | ⟨g₀, e | path⟩
    · rw [hrun] at hreplay
      cases hreplay
    · rw [hrun] at hreplay
      cases hreplay
    -- The trace is accepted, and the graph that it leads to is recomputed and stored.
    · have hgrown : g₀.Grown payment pay.partitions := .replay (.fresh 0) hrun
      have hrecorded := ((recorded_fresh 0 0 1).replay hrun).1
      obtain ⟨g, hrecompute, hrecorded'⟩ := hrecorded.recompute
      obtain ⟨_, r, hstore, hload⟩ := htrip.1 payment List.mem_cons_self g₀ g hgrown hrecompute
      exact ⟨g₀, g, r, hgrown, hrecompute, hrecorded'.txns, hstore, hload⟩
  · obtain ⟨g, hload, _⟩ := stray_loads
    exact ⟨g, hload, htrip.2 stray payment g hload rfl rfl⟩

end GraphRecord

end TxnPath
