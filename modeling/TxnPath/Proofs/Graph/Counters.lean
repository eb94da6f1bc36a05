import TxnPath.Proofs.Graph.Evolution

/-!
# `TxnPath.Proofs.Graph.Counters`: what recording counts

Recording counts hits in the window and leaves the totals as they are (`Recording.windowHits`,
`Recording.totalHits`). Queries count no transaction (`txnCounts_replayQueries`). A trace that is
accepted counts one, in all and in the window, and its path goes on from START exactly once
(`Initialized.replay_path`): visits are of calls, and of COMMIT or ABORT at the end.
-/

set_option autoImplicit false

namespace TxnPath

namespace Graph

variable {R : Type} {g g' : Graph R} {s : Sentinels} {u v : Nat} {links : List (Nat × Nat)}

/-! ### Hits of the window -/

/-- The hits of the vertex at a position since the last recomputation. -/
def windowHits (g : Graph R) (v : Nat) : Nat := (g.vertices[v]?).elim 0 Vertex.windowHits

/-- The hits of a vertex are those of the totals and those of the window. -/
theorem vertexHits_eq (g : Graph R) (v : Nat) : g.vertexHits v = g.totalHits v + g.windowHits v := by
  rw [vertexHits, totalHits, windowHits]
  cases g.vertices[v]? <;> rfl

/-- The totals of a vertex, or zero where there is none. -/
theorem totalHits_eq (g : Graph R) (v : Nat) :
    g.totalHits v = (g.vertices[v]?).elim 0 Vertex.totalHits := by
  rw [totalHits]
  cases g.vertices[v]? <;> rfl

/-- What does not change the totals of a vertex changes none. -/
theorem totalHits_modify {f : Vertex R → Vertex R} (hf : ∀ x, (f x).totalHits = x.totalHits)
    (u v : Nat) : totalHits { g with vertices := g.vertices.modify u f } v = g.totalHits v := by
  rw [totalHits_eq, totalHits_eq, Array.getElem?_modify]
  split
  · cases g.vertices[v]? with
    | none => rfl
    | some x => exact hf x
  · rfl

/-- A vertex that is added for a call has no totals yet. -/
theorem totalHits_ensureCall (g : Graph R) (c : Call) (v : Nat) :
    (g.ensureCall c).1.totalHits v = g.totalHits v := by
  rcases ensureCall_cases g c with ⟨w, hw⟩ | ⟨_, hnew⟩
  · rw [hw]
  · rw [hnew, totalHits_eq, totalHits_eq, pushVertex, Array.getElem?_push]
    split
    case isTrue hv => rw [hv, Array.getElem?_eq_none (Nat.le_refl _)]; rfl
    case isFalse => rfl

/-- Hits go to the window first. -/
theorem totalHits_hitVertex (g : Graph R) (u v : Nat) :
    (g.hitVertex u).totalHits v = g.totalHits v :=
  totalHits_modify (f := fun x => { x with windowHits := x.windowHits + 1 }) (fun _ => rfl) u v

section Recording

variable [Zero R]

/-- So linking leaves the totals as they are. -/
theorem totalHits_link (g : Graph R) (a b v : Nat) :
    (g.link a b).1.totalHits v = g.totalHits v := by
  have hedge : ((g.ensureEdge a b).1.hitEdge (g.ensureEdge a b).2).totalHits v = g.totalHits v := by
    rw [totalHits, hitEdge, vertices_ensureEdge]
    rfl
  rw [link]
  dsimp only
  split
  · rw [totalHits_hitVertex, totalHits_hitVertex, hedge]
  · rw [totalHits_hitVertex, hedge]

/-- Recording leaves the totals as they are. -/
theorem Recording.totalHits (h : Recording g links g') (v : Nat) :
    g'.totalHits v = g.totalHits v := by
  induction h with
  | refl => rfl
  | call c _ ih => rw [totalHits_ensureCall, ih]
  | time w nanos _ ih =>
    exact (totalHits_modify (f := fun x => x.addTime nanos) (fun _ => rfl) w v).trans ih
  | link _ _ _ ih => rw [totalHits_link, ih]
  | txn _ ih => exact ih

/-- Recording hits vertices in the window, by the steps that were linked. -/
theorem Recording.windowHits (h : Recording g links g') (v : Nat) :
    g'.windowHits v = g.windowHits v + g.hitsBy links v := by
  have htotal := h.totalHits v
  have hboth := h.vertexHits v
  rw [vertexHits_eq, vertexHits_eq] at hboth
  omega

end Recording

/-! ### Paths -/

/-- A vertex that stands for something else is not START. -/
theorem Initialized.ne_start (h : g.Initialized s) {kind : VertexKind}
    (hkind : g.kind? v = some kind) (hne : kind ≠ .start) : s.start ≠ v := by
  rintro rfl
  exact hne (Option.some.inj (hkind.symm.trans h.start))

/-- Going on from the end of a path is one more step. -/
theorem stepsOf_concat_getLast {π : List Nat} (hne : π ≠ []) (v : Nat) :
    stepsOf (π ++ [v]) = stepsOf π ++ [(π.getLast hne, v)] := by
  obtain ⟨ρ, u, rfl⟩ : ∃ ρ u, π = ρ ++ [u] := ⟨_, _, (List.dropLast_append_getLast hne).symm⟩
  rw [stepsOf_concat, List.getLast_concat]

/-! ### Transactions -/

section Replay

variable [Zero R] {p : Procedure} {r : Router} {called called' : List StatementId} {q : Query}
  {step : Step}

/-- The transactions counted: in all, and since the last recomputation. -/
def txnCounts (g : Graph R) : Nat × Nat := (g.txns, g.windowTxns)

/-- Linking counts no transaction. -/
theorem txnCounts_link (g : Graph R) (a b : Nat) : (g.link a b).1.txnCounts = g.txnCounts := by
  have hedge : (g.ensureEdge a b).1.txnCounts = g.txnCounts := by
    unfold ensureEdge
    split <;> rfl
  rw [link]
  dsimp only
  split <;> exact hedge

/-- A step to the vertex of a call counts none either, whether it leads on to ABORT or not. It makes
a vertex, notes a time and follows edges, and none of these is about transactions. -/
theorem txnCounts_advance {c : Call} (hrun : g.advance u c q = .ok (g', step)) :
    g'.txnCounts = g.txnCounts := by
  have hcall : (g.prepared c q).txnCounts = g.txnCounts := by
    have hensure : (g.ensureCall c).1.txnCounts = g.txnCounts := by
      rcases ensureCall_cases g c with ⟨v, hv⟩ | ⟨_, hnew⟩
      · rw [hv]
      · rw [hnew]
        rfl
    rw [prepared]
    cases q.elapsed <;> exact hensure
  -- Two links at most follow the call: one to its vertex, and one on to ABORT.
  obtain ⟨⟨g₁, i⟩, hlink, hrun⟩ := advance_ok hrun
  rw [link?] at hlink
  split at hlink
  case isFalse => cases hlink
  case isTrue =>
  have hstep := txnCounts_link (g.prepared c q) u (g.ensureCall c).2
  rw [Except.ok.inj hlink, hcall] at hstep
  split at hrun
  · obtain ⟨s, _, rfl, _⟩ := hrun
    exact (txnCounts_link _ _ _).trans hstep
  · obtain ⟨rfl, _⟩ := hrun
    exact hstep

/-- Nor does a query as a whole. -/
theorem txnCounts_observe (hrun : g.observe u q p r called = .ok (.ok (g', step, called'))) :
    g'.txnCounts = g.txnCounts := by
  obtain ⟨c, _, hadvance, _⟩ := observe_ok hrun
  exact txnCounts_advance hadvance

/-- Queries count no transaction. -/
theorem txnCounts_replayQueries {qs : List Query} {visited : List Nat} {result : Except Error Bool}
    (hrun : replayQueries p r g u called qs = .ok (g', visited, result)) :
    g'.txnCounts = g.txnCounts := by
  rw [replayQueries_ok_iff] at hrun
  induction hrun with
  | done => rfl
  | rejected => rfl
  | aborted hobserve _ => exact txnCounts_observe hobserve
  | went hobserve _ _ ih => exact ih.trans (txnCounts_observe hobserve)

/-! ### Visits of START -/

/-- A query leads to a call, and perhaps to ABORT. It never leads to START, so that this is hit once
for every path. -/
theorem Initialized.start_notMem_observe (h : g.Initialized s)
    (hrun : g.observe u q p r called = .ok (.ok (g', step, called'))) : s.start ∉ step.path := by
  have hinit := (Graph.recording_observe hrun fun _ => ⟨s, h⟩).1.initialized h
  obtain ⟨c, _, hadvance, _⟩ := observe_ok hrun
  obtain ⟨_, hfind, _, _, _, habort⟩ := advance_traces hadvance
  obtain ⟨d, hcall, _⟩ := findCall?_ok hfind
  refine List.not_mem_cons_of_ne_of_not_mem (hinit.ne_start hcall nofun) fun hmem => ?_
  split at habort
  · obtain ⟨s', hs', hlast, _⟩ := habort
    obtain rfl : s = s' := Option.some.inj (hinit.placed.symm.trans hs')
    rw [hlast] at hmem
    exact hinit.ne_start hinit.abort nofun (List.mem_singleton.mp hmem)
  · rw [habort] at hmem
    cases hmem

/-- No query leads back to START. -/
theorem Initialized.start_notMem_replayQueries {qs : List Query} {visited : List Nat}
    {result : Except Error Bool} (h : g.Initialized s)
    (hrun : replayQueries p r g u called qs = .ok (g', visited, result)) : s.start ∉ visited := by
  rw [replayQueries_ok_iff] at hrun
  induction hrun with
  | done => exact List.not_mem_nil
  | rejected => exact List.not_mem_nil
  | aborted hobserve _ => exact h.start_notMem_observe hobserve
  | went hobserve _ _ ih =>
    have hinit := (Graph.recording_observe hobserve fun _ => ⟨s, h⟩).1.initialized h
    have hstep := List.ne_of_not_mem_cons (h.start_notMem_observe hobserve)
    exact List.not_mem_cons_of_ne_of_not_mem hstep (ih hinit)

/-- Queries that could be recorded have led somewhere. -/
theorem visited_ne_nil {qs : List Query} {visited : List Nat} {aborted : Bool} (hne : qs ≠ [])
    (hrun : replayQueries p r g u called qs = .ok (g', visited, .ok aborted)) : visited ≠ [] := by
  cases replayQueries_ok_iff.mp hrun with
  | done => exact absurd rfl hne
  | aborted => exact List.cons_ne_nil _ _
  | went => exact List.cons_ne_nil _ _

/-- A trace that is accepted is recorded by the steps of its path, which goes on from START once. One
more transaction is counted, in all and in the window. -/
theorem Initialized.replay_path {t : Trace} {path : List Nat} (h : g.Initialized s)
    (hrun : g.replay t p r = .ok (g', .ok path)) :
    Recording g (stepsOf path).reverse g' ∧ path.dropLast.count s.start = 1
      ∧ g'.txns = g.txns + 1 ∧ g'.windowTxns = g.windowTxns + 1 := by
  rw [Graph.replay, h.requireSentinels_eq] at hrun
  obtain ⟨_, hs, hrun⟩ := Outcome.bind_ok hrun
  cases hs
  obtain ⟨⟨g₁, visited, stop⟩, hqueries, hrun⟩ := Outcome.bind_ok hrun
  have hrecording := Graph.recording_replayQueries hqueries fun _ => ⟨s, h⟩
  have hinit := hrecording.initialized h
  obtain ⟨htxns, hwindow⟩ := Prod.mk.inj (txnCounts_replayQueries hqueries)
  have honce : ∀ {π : List Nat}, π.Sublist visited → (s.start :: π).count s.start = 1 := fun hsub => by
    rw [List.count_cons_self, List.count_eq_zero.mpr fun hmem =>
      h.start_notMem_replayQueries hqueries (hsub.subset hmem)]
  rcases stop with e | _ | _
  · cases hrun
  -- If no query aborted there is one more step, to the end.
  · obtain ⟨_, _, _, hend⟩ := h.recording_replayQueries (isTerminal_start h) (lt_size h.start) hqueries
    obtain ⟨_, hlast⟩ := hend rfl _ (List.getLast?_eq_some_getLast (List.cons_ne_nil _ _))
    have hterminal : (if t.aborted then s.abort else s.commit) < g₁.vertices.size := by
      split
      · exact lt_size hinit.abort
      · exact lt_size hinit.commit
    have hall := (hrecording.link hlast hterminal).txn
    obtain ⟨hcount, hcount'⟩ := Prod.mk.inj (txnCounts_link g₁
      ((s.start :: visited).getLast (List.cons_ne_nil _ _)) (if t.aborted then s.abort else s.commit))
    cases hrun
    refine ⟨?_, ?_, congrArg (· + 1) (hcount.trans htxns),
      congrArg (· + 1) (hcount'.trans hwindow)⟩
    · rw [stepsOf_concat_getLast (List.cons_ne_nil _ _), List.reverse_concat]
      exact hall
    · rw [List.dropLast_concat]
      exact honce (.refl _)
  -- Otherwise the last query has led there.
  · cases hrun
    have hqs : t.queries ≠ [] := fun hnil => by
      rw [hnil] at hqueries
      cases hqueries
    refine ⟨hrecording.txn, ?_, congrArg (· + 1) htxns, congrArg (· + 1) hwindow⟩
    rw [List.dropLast_cons_of_ne_nil (visited_ne_nil hqs hqueries)]
    exact honce (List.dropLast_sublist visited)

end Replay

end Graph

end TxnPath
