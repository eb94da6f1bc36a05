import Mathlib
import TxnPath.Proofs.Forecast.Filled
import TxnPath.Proofs.Graph.AbortRate
import TxnPath.Proofs.Walk.Strides

/-!
# `TxnPath.Proofs.Walk.Forced`: where forced walks end

A forced walk takes any edge for want of one that agrees with the arguments, so that it stops only
where no edge leads to a vertex that it has not visited (`Journey.candidates_eq_nil_iff`). In a graph
that accepted traces all paths came to an end, and edges leave every vertex that a walk comes to
before COMMIT and ABORT (`Journey.Walked.leaves`). But the walk never goes back to a vertex, and
where all edges lead back it is cut off (`Graph.CutOff`). These edges then close cycles
(`Journey.Walked.cyclic`).

`Graph.Accepts.forced_walk` puts this together: a forced walk ends at COMMIT, at ABORT or where it is
cut off, and the last can happen in graphs with cycles only. It does happen (`errand_walk`): all
of three transactions came to COMMIT, and a walk over what they left does not.
-/

set_option autoImplicit false

namespace TxnPath

variable {R : Type}

namespace Graph

variable {g : Graph R} {path : List Nat} {u v : Nat}

/-- Edges leave the vertex, and all of them lead back to where a walk has been. -/
structure CutOff (g : Graph R) (path : List Nat) (v : Nat) : Prop where
  leaves : ∃ e ∈ g.edges, e.source = v
  back : ∀ e ∈ g.edges, e.source = v → e.target ∈ path

/-- An edge joins two vertices of the graph if it leads from one to the other in its shape. -/
theorem joins_iff_leads : g.Joins u v ↔ g.shape.Leads u v := by
  constructor
  · rintro ⟨e, he, rfl, rfl⟩
    obtain ⟨i, hi⟩ := Array.mem_iff_getElem?.mp he
    exact ⟨⟨i, e.source, e.target⟩, mem_shape_arcs.mpr ⟨e, hi, rfl, rfl⟩, rfl, rfl⟩
  · rintro ⟨a, ha, rfl, rfl⟩
    obtain ⟨e, he, hsource, htarget⟩ := mem_shape_arcs.mp ha
    exact ⟨e, Array.mem_of_getElem? he, hsource.symm, htarget.symm⟩

end Graph

namespace Journey

/-! ### Where a forced walk stops -/

section Stop

variable [Scalar R] {j : Journey R} {visited : List Nat} {v : Nat}

/-- A forced walk finds no edge to take only where every edge leads to a vertex that it has
visited. -/
theorem candidates_eq_nil_iff (hforce : j.force = true) :
    (j.candidates visited v).1 = []
      ↔ ∀ e ∈ j.graph.edges, e.source = v → e.target ∈ visited := by
  constructor
  · intro hnone e he hsource
    by_contra hnew
    obtain ⟨k, hk⟩ := Array.mem_iff_getElem?.mp he
    have hmem : (e, k) ∈ j.onwardEdges visited v := mem_onwardEdges.mpr ⟨hk, hsource, hnew⟩
    rw [candidates_eq_nil, choices, hforce, Bool.and_true] at hnone
    split at hnone
    -- No edge agrees, and the walk would take any edge.
    case isTrue => exact List.ne_nil_of_mem hmem hnone
    -- Some edge agrees, and the walk would take one of those.
    case isFalse hsome => exact hsome (List.isEmpty_iff.mpr hnone)
  · intro hback
    refine List.eq_nil_iff_forall_not_mem.mpr fun e he => ?_
    obtain ⟨hedge, hsource, hnew⟩ := candidates_spec he
    exact hnew (hback e hedge hsource)

end Stop

variable {j : Journey R} {path : List Nat} {u v : Nat}

/-- From everywhere on its path, edges lead to where a walk stands. -/
theorem Walked.leads (h : j.Walked path) (hlast : path.getLast? = some v) (hu : u ∈ path) :
    Relation.ReflTransGen j.graph.shape.Leads u v := by
  refine h.joined.backwards_induction (Relation.ReflTransGen j.graph.shape.Leads · v) path
    (fun x y hstep hy => .head (Graph.joins_iff_leads.mp hstep) hy) (fun hne => ?_) u hu
  rw [List.getLast_of_getLast?_eq_some hlast]

/-- Where a walk is cut off there is a cycle. -/
theorem Walked.cyclic (h : j.Walked path) (hlast : path.getLast? = some v)
    (hcut : j.graph.CutOff path v) : ¬ j.graph.shape.Acyclic := by
  obtain ⟨e, he, rfl⟩ := hcut.leaves
  obtain ⟨a, ha, hsource, htarget⟩ := Graph.joins_iff_leads.mp ⟨e, he, rfl, rfl⟩
  have hcycle : j.graph.shape.OnCycle a := by
    refine ⟨ha, ?_⟩
    rw [hsource, htarget]
    exact h.leads hlast (hcut.back e he rfl)
  exact hcycle.not_acyclic

/-- In a graph of paths that came to their end, edges leave every vertex that a walk from START comes
to before COMMIT and ABORT. -/
theorem Walked.leaves {s : Sentinels} {paths : List (List Nat)} {n : Nat} (h : j.Walked path)
    (hrecorded : j.graph.Recorded s paths n) (hne : paths ≠ [])
    (hends : ∀ π ∈ paths, ∃ u, π.getLast? = some u ∧ j.graph.isTerminal u = true)
    (hhead : path.head? = some s.start) (hv : v ∈ path) (hinner : j.graph.isTerminal v = false) :
    ∃ e ∈ j.graph.edges, e.source = v := by
  -- The walk comes only to where some path came.
  have hmet : ∀ u ∈ path, ∃ π ∈ paths, u ∈ π := by
    refine h.joined.induction (fun u => ∃ π ∈ paths, u ∈ π) path ?_ fun hne' => ?_
    · rintro _ _ ⟨e, he, rfl, rfl⟩ _
      exact hrecorded.enters he
    · obtain ⟨π, hπ⟩ := List.exists_mem_of_ne_nil paths hne
      rw [List.head_of_head?_eq_some hhead]
      exact ⟨π, hπ, List.mem_of_mem_head? (hrecorded.path π hπ).starts⟩
  obtain ⟨π, hπ, hmem⟩ := hmet v hv
  exact hrecorded.leaves hπ (hends π hπ) hmem hinner

end Journey

namespace Graph

variable [Scalar R] {g g' : Graph R} {s : Sentinels} {samples : List Sample}
  {procedure : ProcedureId} {base partitions v : Nat}

/-! ### Graphs that accepted traces -/

/-- A graph that accepted traces and was recomputed holds paths that came to their end. There is one
for each trace. -/
theorem Accepts.recompute (haccepts : (fresh procedure base partitions).Accepts samples g) :
    ∃ g' paths, g.recompute = .ok g' ∧ g'.Recorded ⟨0, 1, 2⟩ paths samples.length
      ∧ paths.length = samples.length
      ∧ ∀ π ∈ paths, ∃ u, π.getLast? = some u ∧ g'.isTerminal u = true := by
  obtain ⟨paths, hrecorded, hlast⟩ := (recorded_fresh procedure base partitions).accepts haccepts
  rw [List.append_nil, Nat.zero_add] at hrecorded
  obtain ⟨g', hrecompute, hrecorded'⟩ := hrecorded.recompute
  refine ⟨g', paths, hrecompute, hrecorded', ?_, fun π hπ => ?_⟩
  · simpa using congrArg List.length hlast
  · obtain ⟨aborted, _, hend⟩ := List.mem_map.mp (hlast ▸ List.mem_map_of_mem (f := List.getLast?) hπ)
    refine ⟨_, hend.symm, (isTerminal_iff hrecorded'.initialized).mpr ?_⟩
    cases aborted with
    | false => exact .inl rfl
    | true => exact .inr rfl

/-- Routers that stay within the partitions lead to no call of others. -/
theorem Accepts.inRange (haccepts : (fresh procedure base partitions : Graph R).Accepts samples g)
    (hbase : base < partitions) (hwithin : ∀ x ∈ samples, x.router.Within partitions)
    (hrun : g.recompute = .ok g') (v : Nat) : g'.InRange v := by
  have hstored : g.Stored ⟨base, procedure⟩ partitions :=
    haccepts.keep (I := fun g => g.Stored ⟨base, procedure⟩ partitions)
      (fun x hx _ _ _ hreplay h => h.replay (hwithin x hx) hreplay)
      (stored_fresh (k := ⟨base, procedure⟩) hbase)
  exact (hstored.recompute hrun).confined.inRange v

/-- Forced walks after training. A graph that accepted traces can be recomputed, and holds no
call of other partitions if the routers stay within its own. A forced walk from START over it ends at
COMMIT, at ABORT or at a vertex where it is cut off, and there is a cycle then. It gives a result
unless it comes to a call of other partitions. -/
theorem Accepts.forced_walk (haccepts : (fresh procedure base partitions : Graph R).Accepts samples g)
    (hne : samples ≠ []) :
    ∃ g' s, g.recompute = .ok g' ∧ g'.sentinels = some s
      ∧ (base < partitions → (∀ x ∈ samples, x.router.Within partitions) → ∀ v, g'.InRange v)
      ∧ ∀ (j : Journey R) (w : Walker R), j.graph = g' → j.force = true → w.Rested →
        (∀ w', w.traverse j s.start = .ok w' → ∃ v, w'.visited.getLast? = some v
            ∧ (v = s.commit ∨ v = s.abort ∨ g'.CutOff w'.visited v ∧ ¬ g'.shape.Acyclic))
          ∧ (g'.vertices.size ≤ halfWordLimit → g'.partitions < halfWordLimit →
            ((∃ f, w.traverse j s.start = .error f)
              ↔ ∃ v ∈ j.itinerary s.start, ¬ g'.InRange v)) := by
  obtain ⟨g', paths, hrecompute, hrecorded, hlength, hends⟩ := haccepts.recompute
  have hinit := hrecorded.initialized
  refine ⟨g', ⟨0, 1, 2⟩, hrecompute, hinit.placed,
    fun hbase hwithin => haccepts.inRange hbase hwithin hrecompute, ?_⟩
  rintro j w rfl hforce hw
  have hstart := lt_size hinit.start
  refine ⟨fun w' hrun => ?_, Walker.traverse_error_iff hinit hw hstart⟩
  -- The walk stops where it cannot go on: where paths end, or where no edge is left to take.
  obtain ⟨hwalked, v, hlast, hnext⟩ := Journey.walked_itinerary hinit hstart
  rw [Walker.traverse_visited hinit hw hrun]
  refine ⟨v, hlast, ?_⟩
  rw [← or_assoc, ← isTerminal_iff hinit]
  by_cases hend : j.graph.isTerminal v = true
  · exact .inl hend
  · have hpaths : paths ≠ [] := List.ne_nil_of_length_pos
      (hlength ▸ List.length_pos_iff.mpr hne)
    rw [Journey.next?_eq_none hinit, ← or_assoc, ← isTerminal_iff hinit] at hnext
    have hcut : j.graph.CutOff (j.itinerary 0) v :=
      ⟨hwalked.leaves hrecorded hpaths hends rfl (List.mem_of_getLast? hlast)
        (Bool.eq_false_iff.mpr hend),
      (Journey.candidates_eq_nil_iff hforce).mp (hnext.resolve_left hend)⟩
    exact .inr ⟨hcut, hwalked.cyclic hlast hcut⟩

/-! ### A walk that is cut off -/

section Errands

/-- A procedure of three statements that are executed in any order. -/
def errands : Procedure :=
  ⟨0, "errands", [], [⟨0, "look", .select, [], []⟩, ⟨1, "price", .select, [], []⟩,
    ⟨2, "stock", .select, [], []⟩], false, true, none⟩

/-- Three transactions that executed the statements in different orders, and committed. -/
def errandSamples : List Sample :=
  [[0, 1, 2, 0], [2, 0, 2], [2, 0, 0]].map fun statements =>
    ⟨⟨1, 0, [], statements.map fun id => ⟨id, [], 0, false, none⟩, false⟩, errands,
      ⟨1, fun _ _ => .ok 0, fun _ _ _ _ => .ok (.singleton 0)⟩⟩

/-- A forced walk of which nothing is known. -/
def errand (g : Graph Rat) : Journey Rat where
  graph := g
  procedure := errands
  mappings := ∅
  router := ⟨1, fun _ _ => .ok 0, fun _ _ _ _ => .ok (.singleton 0)⟩
  args := []
  policy := .firstFound
  force := true
  minHitsForAbort := 1

/-- The walk takes the stock, looks and asks for the price. After that the transactions took the
stock. -/
theorem errand_walk :
    ∃ (g g' : Graph Rat) (w : Walker Rat), (fresh 0 0 1).Accepts errandSamples g
      ∧ g.recompute = .ok g' ∧ g'.sentinels = some ⟨0, 1, 2⟩
      ∧ Walker.new.traverse (errand g') 0 = .ok w ∧ w.visited = [0, 5, 3, 4] := by
  have hwalk : ((fresh 0 0 1 : Graph Rat).acceptAll errandSamples).bind (fun g =>
      g.recompute.toOption.bind fun g' =>
        (Walker.new.traverse (errand g') 0).toOption.map fun w => (g'.sentinels, w.visited))
      = some (some ⟨0, 1, 2⟩, [0, 5, 3, 4]) := by
    decide +kernel
  obtain ⟨g, haccepts, hwalk⟩ := Option.bind_eq_some_iff.mp hwalk
  obtain ⟨g', hrecompute, hwalk⟩ := Option.bind_eq_some_iff.mp hwalk
  obtain ⟨w, hrun, hresult⟩ := Option.map_eq_some_iff.mp hwalk
  obtain ⟨hsentinels, hvisited⟩ := Prod.mk.inj hresult
  exact ⟨g, g', w, acceptAll_iff.mp haccepts, Outcome.of_toOption hrecompute, hsentinels,
    Outcome.of_toOption hrun, hvisited⟩

/-- It is not true that forced walks over graphs that accepted traces end at COMMIT or ABORT. -/
theorem forced_walk_misses :
    ¬ ∀ (samples : List Sample) (g g' : Graph Rat) (s : Sentinels) (j : Journey Rat)
      (w : Walker Rat), samples ≠ [] → (fresh 0 0 1).Accepts samples g → g.recompute = .ok g' →
        g'.sentinels = some s → j.graph = g' → j.force = true →
        Walker.new.traverse j s.start = .ok w →
        w.visited.getLast? = some s.commit ∨ w.visited.getLast? = some s.abort := by
  intro hends
  obtain ⟨g, g', w, haccepts, hrecompute, hsentinels, hrun, hvisited⟩ := errand_walk
  have hend := hends errandSamples g g' ⟨0, 1, 2⟩ (errand g') w (by decide) haccepts hrecompute
    hsentinels rfl rfl hrun
  rw [hvisited] at hend
  exact absurd hend (by decide)

/-- The walk is cut off at the price. -/
theorem forced_walk_errand :
    ∃ (g g' : Graph Rat) (w : Walker Rat), (fresh 0 0 1).Accepts errandSamples g
      ∧ g.recompute = .ok g' ∧ Walker.new.traverse (errand g') 0 = .ok w
      ∧ w.visited = [0, 5, 3, 4] ∧ g'.CutOff [0, 5, 3, 4] 4 ∧ ¬ g'.shape.Acyclic := by
  obtain ⟨g, g', w, haccepts, hrecompute, hsentinels, hrun, hvisited⟩ := errand_walk
  obtain ⟨g₁, s, hrecompute', hsentinels', _, hwalks⟩ := haccepts.forced_walk (by decide)
  obtain rfl := Except.ok.inj (hrecompute'.symm.trans hrecompute)
  obtain rfl := Option.some.inj (hsentinels'.symm.trans hsentinels)
  obtain ⟨v, hlast, hend⟩ := (hwalks (errand g₁) .new rfl rfl Walker.rested_new).1 w hrun
  rw [hvisited] at hlast hend
  obtain rfl : 4 = v := Option.some.inj hlast
  obtain ⟨hcut, hcyclic⟩ := (hend.resolve_left (by decide)).resolve_left (by decide)
  exact ⟨g, g₁, w, haccepts, hrecompute, hrun, hvisited, hcut, hcyclic⟩

end Errands

end Graph

end TxnPath
