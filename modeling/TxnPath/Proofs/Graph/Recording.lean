import TxnPath.Proofs.Graph.Recorded

/-!
# `TxnPath.Proofs.Graph.Recording`: what recording consists of

A transaction is recorded query by query or from its trace, to its end or up to a query that cannot
be resolved. In any case no more than four things happen to the graph: calls get vertices, vertices
get measured times, steps are linked, and finished transactions are counted. `Graph.Recording` says
so and keeps the steps that were linked. They are the steps between the vertices visited
(`recording_replayQueries`). What survives these four survives recording, whatever the queries, the
procedure and the router are: a graph grows (`Recording.grows`), stays initialized
(`Recording.initialized`), and its hits are those of the new steps besides the old ones
(`Recording.tallied`).
-/

set_option autoImplicit false

namespace TxnPath

namespace Graph

variable {R : Type} {g g' g'' : Graph R} {s : Sentinels} {u v : Nat} {links links' : List (Nat × Nat)}

/-- The second graph has at least the vertices of the first, and paths end at the same ones. -/
structure Grows (g g' : Graph R) : Prop where
  size : g.vertices.size ≤ g'.vertices.size
  terminal : ∀ v, g'.isTerminal v = g.isTerminal v

/-- A graph has grown from itself. -/
theorem Grows.refl (g : Graph R) : Grows g g := ⟨Nat.le_refl _, fun _ => rfl⟩

/-- Growing goes on from one operation to the next. -/
theorem Grows.trans (h : Grows g g') (h' : Grows g' g'') : Grows g g'' :=
  ⟨Nat.le_trans h.size h'.size, fun v => (h'.terminal v).trans (h.terminal v)⟩

/-- An operation that keeps the hits keeps which vertices are terminal, and takes none away. -/
theorem SameHits.grows (h : SameHits g g') : Grows g g' := ⟨h.size, h.terminal⟩

/-- Linking adds no vertex and makes none terminal. -/
theorem grows_link [Zero R] (g : Graph R) (u v : Nat) : Grows g (g.link u v).1 :=
  ⟨(size_link g u v).ge, fun w => isTerminal_congr (kind?_link g u v w)⟩

/-- The second graph comes from the first by recording. The steps that were linked are listed, the
last one first. -/
inductive Recording [Zero R] : Graph R → List (Nat × Nat) → Graph R → Prop
  | refl (g : Graph R) : Recording g [] g
  | call {g g' : Graph R} {links : List (Nat × Nat)} (c : Call) :
    Recording g links g' → Recording g links (g'.ensureCall c).1
  | time {g g' : Graph R} {links : List (Nat × Nat)} (v nanos : Nat) :
    Recording g links g' → Recording g links (g'.addTime v nanos)
  | link {g g' : Graph R} {links : List (Nat × Nat)} {u v : Nat} :
    Recording g links g' → u < g'.vertices.size → v < g'.vertices.size →
      Recording g ((u, v) :: links) (g'.link u v).1
  | txn {g g' : Graph R} {links : List (Nat × Nat)} :
    Recording g links g' → Recording g links g'.recordTxn

/-- A query led to a vertex of the graph, by way of a call at which no path ends. -/
structure Leads (g : Graph R) (step : Step) : Prop where
  last : step.last < g.vertices.size
  inner : g.isTerminal step.vertex = false

/-- As long as the transaction goes on, the query leads to the vertex of its call, which is there.
-/
theorem Leads.vertex {step : Step} (h : g.Leads step) (hopen : step.abort = none) :
    step.vertex < g.vertices.size := by
  have hlast := h.last
  rwa [Step.last, hopen] at hlast

variable [Zero R]

/-- One recording after the other is a recording, with the steps of both, the later ones in front.
-/
theorem Recording.trans (h : Recording g links g') (h' : Recording g' links' g'') :
    Recording g (links' ++ links) g'' := by
  induction h' with
  | refl => exact h
  | call c _ ih => exact ih.call c
  | time v nanos _ ih => exact ih.time v nanos
  | link _ hu hv ih => exact ih.link hu hv
  | txn _ ih => exact ih.txn

/-! ### What survives recording -/

/-- By induction on what is recorded, a graph grows by recording. -/
theorem Recording.grows (h : Recording g links g') : Grows g g' := by
  induction h with
  | refl => exact .refl _
  | call c _ ih => exact ih.trans (sameHits_ensureCall _ c).grows
  | time v nanos _ ih => exact ih.trans (sameHits_addTime _ v nanos).grows
  | link _ _ _ ih => exact ih.trans (grows_link _ _ _)
  | txn _ ih => exact ⟨ih.size, ih.terminal⟩

/-- Likewise it stays initialized: the links are between vertices that are there, and calls are no
sentinels. -/
theorem Recording.initialized (h : Recording g links g') (hg : g.Initialized s) :
    g'.Initialized s := by
  induction h with
  | refl => exact hg
  | call c _ ih => exact ih.ensureCall c
  | time v nanos _ ih => exact ih.addTime v nanos
  | link _ hu hv ih => exact ih.link hu hv
  | txn _ ih => exact ih.recordTxn

/-- Hits count the steps that were linked. -/
theorem Recording.tallied {steps : List (Nat × Nat)} (h : Recording g links g')
    (hg : g.Tallied steps) : g'.Tallied (links ++ steps) := by
  induction h with
  | refl => exact hg
  | call c _ ih => exact ih.of_sameHits (sameHits_ensureCall _ c)
  | time v nanos _ ih => exact ih.of_sameHits (sameHits_addTime _ v nanos)
  | link _ hu hv ih => exact ih.link hu hv
  | txn _ ih => exact ⟨ih.distinct, ih.covered, ih.edge, ih.vertex⟩

/-- Vertices are hit by the steps that were linked, whatever their hits were before. -/
theorem Recording.vertexHits (h : Recording g links g') (v : Nat) :
    g'.vertexHits v = g.vertexHits v + g.hitsBy links v := by
  induction h with
  | refl => rw [hitsBy_nil, Nat.add_zero]
  | call c _ ih => rw [(sameHits_ensureCall _ c).vertex, ih]
  | time w nanos _ ih => rw [(sameHits_addTime _ w nanos).vertex, ih]
  | link hbefore hu hv ih =>
    rw [vertexHits_link hu hv, ih, hbefore.grows.terminal, hitsBy_cons]
    omega
  | txn _ ih => exact ih

/-! ### Recording queries and traces -/

section Replay

variable {p : Procedure} {r : Router} {called called' : List StatementId}

/-- Preparing a query adds a call and its time, and links nothing. -/
theorem recording_prepared (g : Graph R) (c : Call) (q : Query) : Recording g [] (g.prepared c q) := by
  have hcall := (Recording.refl g).call c
  rw [prepared]
  cases q.elapsed with
  | none => exact hcall
  | some nanos => exact hcall.time _ nanos

/-- A link between two vertices that are there is one step. -/
theorem recording_link? {i : Nat} (hrun : g.link? u v = .ok (g', i)) : Recording g [(u, v)] g' := by
  rw [link?] at hrun
  split at hrun
  case isTrue hlt =>
    have hlinked := (Recording.refl g).link hlt.1 hlt.2
    rwa [Except.ok.inj hrun] at hlinked
  case isFalse => cases hrun

/-- A call is recorded by a step to its vertex, and by one from there to ABORT if it aborts. That
there are sentinels is only asked in the second case. -/
theorem recording_advance {c : Call} {q : Query} {step : Step}
    (hrun : g.advance u c q = .ok (g', step)) (hend : step.abort.isSome → ∃ s, g.Initialized s) :
    Recording g (stepsOf (u :: step.path)).reverse g' ∧ g'.Leads step := by
  have hcall := ((sameHits_prepared g c q).terminal _).trans (ensureCall_vertex g c).2
  have hlt := Nat.lt_of_lt_of_le (ensureCall_vertex g c).1 (sameHits_prepared g c q).size
  obtain ⟨⟨g₁, i⟩, hlink, hrun⟩ := advance_ok hrun
  generalize (g.ensureCall c).2 = v at hlink hrun hcall hlt
  have hstep := recording_link? hlink
  have hrecording := (recording_prepared g c q).trans hstep
  have hcall := (hstep.grows.terminal v).trans hcall
  have hlt := Nat.lt_of_lt_of_le hlt hstep.grows.size
  split at hrun
  -- An aborted query is linked to ABORT as well, so that two steps are recorded.
  · obtain ⟨s', hs', rfl, rfl⟩ := hrun
    obtain ⟨s, h⟩ := hend rfl
    have hinit := hrecording.initialized h
    obtain rfl : s = s' := Except.ok.inj (hinit.requireSentinels_eq.symm.trans hs')
    have hcall := ((grows_link g₁ v s.abort).terminal v).trans hcall
    refine ⟨hrecording.link hlt (lt_size hinit.abort), ?_, hcall⟩
    exact Nat.lt_of_lt_of_le (lt_size hinit.abort) (grows_link g₁ v s.abort).size
  · obtain ⟨rfl, rfl⟩ := hrun
    exact ⟨hrecording, hlt, hcall⟩

/-- A query that is resolved is recorded like the step to its call. -/
theorem recording_observe {q : Query} {step : Step}
    (hrun : g.observe u q p r called = .ok (.ok (g', step, called')))
    (hend : step.abort.isSome → ∃ s, g.Initialized s) :
    Recording g (stepsOf (u :: step.path)).reverse g' ∧ g'.Leads step := by
  rw [Graph.observe] at hrun
  split at hrun
  · cases hrun
  · split at hrun
    · cases hrun
    case h_2 hadvance =>
      cases hrun
      exact recording_advance hadvance hend

/-- Queries are recorded by the steps between the vertices visited, also where they are broken off.
A rejected query records no step; an aborted one records the step to ABORT, for which there have to
be sentinels. -/
theorem recording_replayQueries {qs : List Query} {visited : List Nat} {result : Except Error Bool}
    (hrun : Graph.replayQueries p r g u called qs = .ok (g', visited, result))
    (hend : result = .ok true → ∃ s, g.Initialized s) :
    Recording g (stepsOf (u :: visited)).reverse g' := by
  rw [replayQueries_ok_iff] at hrun
  induction hrun with
  | done g u => exact .refl g
  | rejected => exact .refl _
  | aborted hobserve _ => exact (recording_observe hobserve fun _ => hend rfl).1
  | went hobserve hopen _ ih =>
    have hstep := (recording_observe hobserve fun hended => by rw [hopen] at hended; cases hended).1
    rw [Step.path, hopen] at hstep
    have hall := hstep.trans (ih fun h => (hend h).imp fun _ => hstep.initialized)
    rwa [stepsOf_cons_cons, List.reverse_cons]

/-- The steps go on from the vertex given, or from the call, where no path ends. -/
theorem Initialized.recording_observe {q : Query} {step : Step} (h : g.Initialized s)
    (hrun : g.observe u q p r called = .ok (.ok (g', step, called'))) :
    ∃ links, Recording g links g' ∧ g'.Leads step
      ∧ ∀ p ∈ links, p.1 = u ∨ g'.isTerminal p.1 = false := by
  obtain ⟨hrecording, hleads⟩ := Graph.recording_observe hrun fun _ => ⟨s, h⟩
  refine ⟨_, hrecording, hleads, fun p hp => ?_⟩
  have hsource := List.mem_map_of_mem (f := Prod.fst) (List.mem_reverse.mp hp)
  rw [map_fst_stepsOf, Step.path, List.dropLast_cons_cons] at hsource
  refine (List.mem_cons.mp hsource).imp_right fun hmem => ?_
  obtain ⟨v, last⟩ := step
  cases last with
  | none => cases hmem
  | some a => exact List.mem_singleton.mp hmem ▸ hleads.inner

/-- Queries are recorded by steps from where no path ends, also where they are broken off. If none of
them aborts then no path ends where they lead. -/
theorem Initialized.recording_replayQueries {qs : List Query} {visited : List Nat}
    {result : Except Error Bool} (h : g.Initialized s) (hinner : g.isTerminal u = false)
    (hu : u < g.vertices.size)
    (hrun : Graph.replayQueries p r g u called qs = .ok (g', visited, result)) :
    ∃ links, Recording g links g' ∧ (∀ p ∈ links, g'.isTerminal p.1 = false)
      ∧ (result = .ok false → ∀ last, (u :: visited).getLast? = some last →
        g'.isTerminal last = false ∧ last < g'.vertices.size) := by
  -- Each query starts where the one before led, so vertex, graph and calls are general.
  rw [replayQueries_ok_iff] at hrun
  induction hrun with
  | done g u =>
    refine ⟨[], .refl _, by simp, fun _ last hlast => ?_⟩
    obtain rfl := Option.some.inj hlast
    exact ⟨hinner, hu⟩
  | rejected => exact ⟨[], .refl _, by simp, by simp⟩
  | @aborted _ g₁ u _ _ _ _ step hobserve _ =>
    obtain ⟨links, hstep, _, hsources⟩ := h.recording_observe hobserve
    refine ⟨links, hstep, fun p hp => ?_, by simp⟩
    exact (hsources p hp).elim (fun heq => heq ▸ (hstep.grows.terminal u).trans hinner) id
  | @went _ g₁ _ u _ _ _ _ step _ _ hobserve hopen _ ih =>
    obtain ⟨links, hstep, hleads, hsources⟩ := h.recording_observe hobserve
    have hsources : ∀ p ∈ links, g₁.isTerminal p.1 = false := fun p hp =>
      (hsources p hp).elim (fun heq => heq ▸ (hstep.grows.terminal u).trans hinner) id
    obtain ⟨links', hall, hsources', hend⟩ :=
      ih (hstep.initialized h) hleads.inner (hleads.vertex hopen)
    refine ⟨links' ++ links, hstep.trans hall, fun p hp => ?_, fun hresult last hlast => ?_⟩
    · rcases List.mem_append.mp hp with hp | hp
      · exact hsources' p hp
      · exact (hall.grows.terminal _).trans (hsources p hp)
    · exact hend hresult last (by rwa [List.getLast?_cons_cons] at hlast)

/-- A trace is recorded by steps from where no path ends, also where it is broken off. A trace that
is read to its end adds one more step, to COMMIT or ABORT, and is counted; one that is rejected is
not. -/
theorem Initialized.recording_replay {t : Trace} {result : Except Error (List Nat)}
    (h : g.Initialized s) (hrun : g.replay t p r = .ok (g', result)) :
    ∃ links, Recording g links g' ∧ ∀ p ∈ links, g'.isTerminal p.1 = false := by
  rw [Graph.replay] at hrun
  obtain ⟨s', hs', hrun⟩ := Outcome.bind_ok hrun
  rw [h.requireSentinels_eq] at hs'
  cases hs'
  obtain ⟨⟨g₁, visited, stop⟩, hqueries, hrun⟩ := Outcome.bind_ok hrun
  obtain ⟨links, hstep, hsources, hend⟩ := h.recording_replayQueries (isTerminal_start h)
    (lt_size h.start) hqueries
  have hinit := hstep.initialized h
  -- The trace was rejected midway, or read to its end, or it ended at an aborted query.
  rcases stop with e | _ | _
  · cases hrun
    exact ⟨links, hstep, hsources⟩
  · cases hrun
    obtain ⟨hinner, hlast⟩ := hend rfl _ (List.getLast?_eq_some_getLast (List.cons_ne_nil _ _))
    have hterminal : (if t.aborted then s.abort else s.commit) < g₁.vertices.size := by
      split
      · exact lt_size hinit.abort
      · exact lt_size hinit.commit
    refine ⟨_, (hstep.link hlast hterminal).txn, fun p hp => ?_⟩
    refine ((grows_link g₁ _ _).terminal p.1).trans ?_
    rcases List.mem_cons.mp hp with rfl | hp
    · exact hinner
    · exact hsources p hp
  · cases hrun
    exact ⟨links, hstep.txn, hsources⟩

end Replay

end Graph

end TxnPath
