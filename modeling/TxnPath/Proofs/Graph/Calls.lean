import TxnPath.GraphStore
import TxnPath.Proofs.Graph.Recorded

/-!
# `TxnPath.Proofs.Graph.Calls`: what a graph's vertices stand for

Vertices are added for calls, and nothing else that is done to a graph changes what its
vertices stand for (`SameKinds`). What holds of the calls of a graph can therefore be carried
through replaying and recomputing at once: `replay_keeps` asks for it to depend on the kinds
only, and to survive the addition of a call that a query was resolved to.
-/

set_option autoImplicit false

namespace TxnPath

namespace Graph

variable {R : Type} {g g' : Graph R} {s : Sentinels} {u v : Nat}

/-- Two graphs of one key and number of partitions whose vertices stand for the same. Counters,
times, edges and probabilities may differ. -/
structure SameKinds (g g' : Graph R) : Prop where
  key : g'.key = g.key
  partitions : g'.partitions = g.partitions
  kind : ∀ v, g'.kind? v = g.kind? v

/-- The vertices of a graph stand for what they stand for. -/
theorem SameKinds.refl (g : Graph R) : SameKinds g g := ⟨rfl, rfl, fun _ => rfl⟩

/-- Two changes that leave the kinds of the vertices alone leave them alone together. -/
theorem SameKinds.trans {g'' : Graph R} (h : SameKinds g g') (h' : SameKinds g' g'') :
    SameKinds g g'' where
  key := h'.key.trans h.key
  partitions := h'.partitions.trans h.partitions
  kind := fun v => (h'.kind v).trans (h.kind v)

/-- The base partition is part of the key of a graph. -/
theorem SameKinds.base (h : SameKinds g g') : g'.base = g.base := congrArg GraphKey.base h.key

/-- No vertex is added or taken away by a change that leaves the kinds alone. -/
theorem SameKinds.size (h : SameKinds g g') : g'.vertices.size = g.vertices.size := by
  have hlt : ∀ v, v < g'.vertices.size ↔ v < g.vertices.size := fun v => by
    rw [← kind?_isSome, h.kind, kind?_isSome]
  have := hlt g.vertices.size
  have := hlt g'.vertices.size
  omega

/-- The time spent on a query is added to the counter of a vertex. -/
theorem sameKinds_addTime (g : Graph R) (v nanos : Nat) : SameKinds g (g.addTime v nanos) :=
  ⟨rfl, rfl, kind?_modify (f := fun x => x.addTime nanos) (fun _ => rfl) v⟩

/-- Counting a transaction does not touch the vertices. -/
theorem sameKinds_recordTxn (g : Graph R) : SameKinds g g.recordTxn := ⟨rfl, rfl, fun _ => rfl⟩

/-- Edges are added without a look at the vertices. -/
theorem sameKinds_ensureEdge [Zero R] (g : Graph R) (u v : Nat) :
    SameKinds g (g.ensureEdge u v).1 := by
  unfold ensureEdge
  split <;> exact ⟨rfl, rfl, fun _ => rfl⟩

/-- Nor is a vertex changed by linking it to another, apart from its hits. -/
theorem sameKinds_link [Zero R] (g : Graph R) (u v : Nat) : SameKinds g (g.link u v).1 := by
  have hedge := sameKinds_ensureEdge g u v
  refine ⟨?_, ?_, kind?_link g u v⟩
  · rw [link]
    dsimp only
    split <;> exact hedge.key
  · rw [link]
    dsimp only
    split <;> exact hedge.partitions

/-- The same where the ends are checked first. -/
theorem sameKinds_link? [Zero R] {r : Graph R × Nat} (h : g.link? u v = .ok r) :
    SameKinds g r.1 := by
  rw [link?] at h
  split at h
  · cases h
    exact sameKinds_link g u v
  · cases h

/-- Once the vertex of a call is there, counting the query at it changes no kind. -/
theorem sameKinds_prepared (g : Graph R) (c : Call) (q : Query) :
    SameKinds (g.ensureCall c).1 (g.prepared c q) := by
  rw [prepared]
  cases q.elapsed with
  | none => exact .refl _
  | some nanos => exact sameKinds_addTime _ _ nanos

/-- Folding the window is about hits. -/
theorem sameKinds_foldWindow (g : Graph R) : SameKinds g g.foldWindow :=
  ⟨rfl, rfl, kind?_map fun _ => rfl⟩

section Derive

variable [Scalar R]

/-- Settling vertices is about tables and weights. -/
theorem SameButTables.sameKinds (h : SameButTables g.unsetTables.weighEdges g') :
    SameKinds g g' where
  key := by rw [h.frame]; rfl
  partitions := by rw [h.frame]; rfl
  kind := fun v => (h.kind? v).trans
    (kind?_map (f := fun x => { x with probs := .unset g.partitions }) (fun _ => rfl) v)

/-- Recomputing a graph that holds paths changes no kind. -/
theorem Recorded.sameKinds_recompute {paths : List (List Nat)} {n : Nat}
    (h : g.Recorded s paths n) (hrun : g.recompute = .ok g') : SameKinds g g' := by
  have hfold := h.of_sameHits h.initialized.foldWindow (sameHits_foldWindow g)
  obtain ⟨_, g₁, _, hderive, hsame, _⟩ := hfold.initialized.derive_ok hfold.ends
  obtain rfl := Except.ok.inj (hrun.symm.trans hderive)
  exact (sameKinds_foldWindow g).trans hsame.sameKinds

end Derive

/-! ### The vertex of a call -/

/-- The call has a vertex already, or gets a new one, which comes last. -/
theorem ensureCall_cases (g : Graph R) (c : Call) :
    (∃ v, g.ensureCall c = (g, v))
      ∨ g.findCall? c = none ∧ g.ensureCall c = (g.pushVertex (.query c), g.vertices.size) := by
  rw [ensureCall]
  cases g.findCall? c with
  | some v => exact .inl ⟨v, rfl⟩
  | none => exact .inr ⟨rfl, rfl⟩

/-- One query adds one vertex at most. -/
theorem size_ensureCall_le (g : Graph R) (c : Call) :
    (g.ensureCall c).1.vertices.size ≤ g.vertices.size + 1 := by
  rcases ensureCall_cases g c with ⟨v, hv⟩ | ⟨_, hnew⟩
  · rw [hv]
    exact Nat.le_succ _
  · rw [hnew]
    exact Nat.le_of_eq (size_pushVertex _)

/-! ### Recording queries -/

section Replay

variable [Zero R] {p : Procedure} {r : Router} {called : List StatementId}

/-- Recording a call adds its vertex, and leaves what the vertices stand for otherwise. -/
theorem sameKinds_advance {c : Call} {q : Query} {step : Step}
    (hrun : g.advance u c q = .ok (g', step)) : SameKinds (g.ensureCall c).1 g' := by
  obtain ⟨r, hlink, hrun⟩ := advance_ok hrun
  have hlinked := (sameKinds_prepared g c q).trans (sameKinds_link? hlink)
  split at hrun
  · obtain ⟨s, _, rfl, _⟩ := hrun
    exact hlinked.trans (sameKinds_link r.1 _ _)
  · obtain ⟨rfl, _⟩ := hrun
    exact hlinked

/-- A query is recorded as the call that it is resolved to. -/
theorem observe_ok {q : Query} {called' : List StatementId} {step : Step}
    (hrun : g.observe u q p r called = .ok (.ok (g', step, called'))) :
    ∃ c, q.resolve p r g.base called = .ok c ∧ g.advance u c q = .ok (g', step)
      ∧ called' = called ++ [c.statement] := by
  rw [observe] at hrun
  split at hrun
  · cases hrun
  case h_2 c hresolve =>
    split at hrun
    · cases hrun
    case h_2 hadvance =>
      cases hrun
      exact ⟨c, hresolve, hadvance, rfl⟩

/-- What depends on the kinds of vertices, and survives the addition of a call that a query is
resolved to, survives the recording of queries. -/
structure KeptBy (I : Graph R → Prop) (p : Procedure) (r : Router) : Prop where
  kinds : ∀ {g g'}, SameKinds g g' → I g → I g'
  call : ∀ {g} {q : Query} {called c}, q.resolve p r g.base called = .ok c → I g → I (g.ensureCall c).1

variable {I : Graph R → Prop}

/-- One query keeps what survives the addition of its call: everything after `ensureCall` leaves the
kinds of the vertices alone. -/
theorem KeptBy.observe (hkept : KeptBy I p r) {q : Query} {called' : List StatementId} {step : Step}
    (hrun : g.observe u q p r called = .ok (.ok (g', step, called'))) (h : I g) : I g' := by
  obtain ⟨c, hresolve, hadvance, _⟩ := observe_ok hrun
  exact hkept.kinds (sameKinds_advance hadvance) (hkept.call hresolve h)

/-- By induction on the queries, so does the longest prefix of a trace that is accepted. -/
theorem KeptBy.replayQueries (hkept : KeptBy I p r) {qs : List Query} {visited : List Nat}
    {result : Except Error Bool}
    (hrun : Graph.replayQueries p r g u called qs = .ok (g', visited, result)) (h : I g) :
    I g' := by
  rw [replayQueries_ok_iff] at hrun
  induction hrun with
  | done => exact h
  | rejected => exact h
  | aborted hobserve _ => exact hkept.observe hobserve h
  | went hobserve _ _ ih => exact ih (hkept.observe hobserve h)

/-- Replaying a whole trace does so too, with the links to the sentinels before and after. -/
theorem KeptBy.replay (hkept : KeptBy I p r) {t : Trace} {result : Except Error (List Nat)}
    (hrun : g.replay t p r = .ok (g', result)) (h : I g) : I g' := by
  rw [Graph.replay] at hrun
  obtain ⟨s, _, hrun⟩ := Outcome.bind_ok hrun
  obtain ⟨⟨g₁, visited, stop⟩, hqueries, hrun⟩ := Outcome.bind_ok hrun
  have hstep := hkept.replayQueries hqueries h
  rcases stop with e | _ | _
  · cases hrun
    exact hstep
  · cases hrun
    exact hkept.kinds ((sameKinds_link g₁ _ _).trans (sameKinds_recordTxn _)) hstep
  · cases hrun
    exact hkept.kinds (sameKinds_recordTxn g₁) hstep

/-- A call is recorded by a link in the graph prepared for it, and by one to ABORT if it aborts. -/
theorem advance_eq (g : Graph R) (u : Nat) (c : Call) (q : Query) :
    g.advance u c q = ((g.prepared c q).link? u (g.ensureCall c).2).bind fun r =>
      if q.aborted then r.1.requireSentinels.bind fun s =>
        .ok ((r.1.link (g.ensureCall c).2 s.abort).1, ⟨(g.ensureCall c).2, some s.abort⟩)
      else .ok (r.1, ⟨(g.ensureCall c).2, none⟩) := by
  rw [advance, prepared]
  cases q.elapsed with
  | none => rfl
  | some nanos => rfl

/-- A query behind a vertex on a path can be recorded, if it can be resolved: the vertex of its call
is made first, and the sentinels are there for it to abort. -/
theorem Recorded.observe_total {paths : List (List Nat)} {π : List Nat} {n : Nat}
    (h : g.Recorded s (π :: paths) n) (hlast : π.getLast? = some u) (q : Query) (p : Procedure)
    (r : Router) (called : List StatementId) :
    (∃ e, g.observe u q p r called = .ok (.error e))
      ∨ ∃ g' step called', g.observe u q p r called = .ok (.ok (g', step, called')) := by
  rw [Graph.observe]
  cases hresolve : q.resolve p r g.base called with
  | error e => exact .inl ⟨e, rfl⟩
  | ok c =>
    -- The query is resolved to a call. Its vertex is there once it has been prepared, so that the
    -- step to it can be taken.
    have hu := (h.path _ List.mem_cons_self).inside u (List.mem_of_getLast? hlast)
    have hprepared := h.initialized.prepared c q
    have hsize := (sameKinds_prepared g c q).size
    have hlt : u < (g.prepared c q).vertices.size
        ∧ (g.ensureCall c).2 < (g.prepared c q).vertices.size := by
      rw [(sameKinds_prepared g c q).size]
      exact ⟨Nat.lt_of_lt_of_le hu (sameHits_ensureCall g c).size, (ensureCall_vertex g c).1⟩
    have hlinked := (h.initialized.prepared c q).link hlt.1 hlt.2
    obtain ⟨g', step, hadvance⟩ : ∃ g' step, g.advance u c q = .ok (g', step) := by
      rw [advance_eq, link?, if_pos hlt]
      dsimp only [Except.bind]
      rw [hlinked.requireSentinels_eq]
      split <;> exact ⟨_, _, rfl⟩
    refine .inr ⟨g', step, called ++ [c.statement], ?_⟩
    dsimp only
    rw [hadvance]

end Replay

end Graph

end TxnPath
