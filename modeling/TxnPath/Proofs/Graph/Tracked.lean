import TxnPath.Proofs.Graph.Evolution

/-!
# `TxnPath.Proofs.Graph.Tracked`: the path of one transaction

A transaction under way leaves a path in its graph. `Graph.Tracked` is what this path is like, whatever
else is recorded in the graph: it starts at START, steps along edges, visits no vertex twice, ends at
ABORT if it has ended, and counts its calls of each statement from zero on without a gap. A query that is
recorded at its end keeps it so (`Tracked.observe`), and so does whatever others do to the graph, as
vertices and edges stay (`Tracked.extends`).
-/

set_option autoImplicit false

namespace TxnPath

/-- The occurrence of a call is how often its statement was called before. -/
theorem Query.resolve_occurrence {q : Query} {p : Procedure} {r : Router} {base : Nat}
    {called : List StatementId} {c : Call} (h : q.resolve p r base called = .ok c) :
    c.occurrence = called.count c.statement := by
  rw [resolve] at h
  split at h
  · cases h
  · split at h
    · cases h
    · split at h
      · cases h
      · cases h
        rfl

namespace Graph

variable {R : Type} {g g' : Graph R} {s : Sentinels} {π : List Nat} {u v : Nat}

/-! ### Calls along a path -/

/-- The call that a vertex stands for. -/
def callAt? (g : Graph R) (v : Nat) : Option Call := (g.kind? v).bind VertexKind.call?

/-- The calls that a path makes, in order. -/
def callsAlong (g : Graph R) (π : List Nat) : List Call := π.filterMap g.callAt?

/-- The call of a vertex is what the vertex stands for. -/
theorem callAt?_eq_some {c : Call} : g.callAt? v = some c ↔ g.kind? v = some (.query c) := by
  rw [callAt?]
  cases g.kind? v with
  | none => simp
  | some kind => cases kind <;> simp [VertexKind.call?]

/-- A path that goes on makes one call more, unless it goes on to a sentinel. -/
theorem callsAlong_concat (g : Graph R) (π : List Nat) (v : Nat) :
    g.callsAlong (π ++ [v]) = g.callsAlong π ++ (g.callAt? v).toList := by
  rw [callsAlong, List.filterMap_append]
  cases hv : g.callAt? v with
  | none => simp [hv, callsAlong]
  | some c => simp [hv, callsAlong]

/-- Vertices keep what they stand for. -/
theorem Extends.kind? (h : Extends g g') (hv : v < g.vertices.size) : g'.kind? v = g.kind? v := by
  rw [← getElem?_kinds, ← getElem?_kinds]
  rw [← length_kinds] at hv
  rw [List.prefix_iff_getElem?.mp h.kinds v hv, List.getElem?_eq_getElem hv]

/-- The calls along a path stay the same while the graph is extended. -/
theorem Extends.callsAlong (h : Extends g g') (hinside : ∀ v ∈ π, v < g.vertices.size) :
    g'.callsAlong π = g.callsAlong π :=
  List.filterMap_congr fun v hv => by rw [callAt?, callAt?, h.kind? (hinside v hv)]

/-- Each statement is called for the first time, then for the second time, and so on. -/
def InTurn (calls : List Call) : Prop :=
  ∀ statement, (calls.filter fun c => c.statement == statement).map Call.occurrence
    = List.range ((calls.map Call.statement).count statement)

/-- The next call of a statement is one later than the last. -/
theorem InTurn.concat {calls : List Call} (h : InTurn calls) {c : Call}
    (hc : c.occurrence = (calls.map Call.statement).count c.statement) : InTurn (calls ++ [c]) := by
  intro statement
  rw [List.filter_append, List.map_append, h statement, List.map_append, List.count_append]
  by_cases heq : c.statement = statement
  · subst heq
    simp [hc, List.range_succ]
  · simp [heq]

/-- A call that was made is earlier than the next one. -/
theorem InTurn.lt {calls : List Call} (h : InTurn calls) {c : Call} (hc : c ∈ calls) :
    c.occurrence < (calls.map Call.statement).count c.statement := by
  have hmem : c.occurrence ∈ List.range ((calls.map Call.statement).count c.statement) := by
    rw [← h c.statement]
    exact List.mem_map_of_mem (List.mem_filter.mpr ⟨hc, beq_self_eq_true _⟩)
  exact List.mem_range.mp hmem

/-! ### Paths that are tracked -/

/-- A path of an initialized graph as a transaction takes it. Beside being a path, it follows edges,
comes to no vertex twice, and counts the calls of each statement from the first. -/
structure Tracked (g : Graph R) (s : Sentinels) (π : List Nat) : Prop extends g.IsPath s π where
  initialized : g.Initialized s
  joined : π.IsChain fun u v => (u, v) ∈ g.ends
  nodup : π.Nodup
  /-- While the transaction is open, a path has ended only where a query aborted. -/
  ended : ∀ u, π.getLast? = some u → g.isTerminal u = true → u = s.abort
  inTurn : InTurn (g.callsAlong π)

/-- A path begins at START. It has made no call yet, and START is no end. -/
theorem Initialized.tracked (h : g.Initialized s) : g.Tracked s [s.start] where
  starts := rfl
  inside := List.forall_mem_singleton.mpr (lt_size h.start)
  inner := nofun
  initialized := h
  joined := .singleton _
  nodup := List.nodup_singleton _
  ended u hu hterminal := by
    obtain rfl : s.start = u := Option.some.inj hu
    rw [isTerminal_start h] at hterminal
    cases hterminal
  inTurn := by
    have hnone : g.callAt? s.start = none := by rw [callAt?, h.start]; rfl
    rw [callsAlong, List.filterMap_cons_none hnone]
    exact fun _ => rfl

/-- A path is tracked whatever else is recorded. Its vertices stand for the same, and its edges are
still there. -/
theorem Tracked.extends (h : g.Tracked s π) (hext : Extends g g') (hinit : g'.Initialized s) :
    g'.Tracked s π where
  starts := h.starts
  inside v hv := Nat.lt_of_lt_of_le (h.inside v hv) hext.size
  inner v hv := (isTerminal_congr (hext.kind? (h.inside v (List.mem_of_mem_dropLast hv)))).trans
    (h.inner v hv)
  initialized := hinit
  joined := h.joined.imp fun _ _ hmem => hext.ends.subset hmem
  nodup := h.nodup
  ended u hu hterminal := by
    rw [isTerminal_congr (hext.kind? (h.inside u (List.mem_of_getLast? hu)))] at hterminal
    exact h.ended u hu hterminal
  inTurn := by
    rw [hext.callsAlong h.inside]
    exact h.inTurn

/-- A step along an edge to a vertex that was not visited makes a path longer. What a tracked path
promises is kept field by field: of the new end it has to be known that it is not COMMIT, and that
its call is in turn. -/
theorem Tracked.step (h : g.Tracked s π) (hlast : π.getLast? = some u)
    (hinner : g.isTerminal u = false) (hv : v < g.vertices.size) (hedge : (u, v) ∈ g.ends)
    (hnew : v ∉ π) (hended : g.isTerminal v = true → v = s.abort)
    (hturn : InTurn (g.callsAlong (π ++ [v]))) : g.Tracked s (π ++ [v]) where
  starts := by
    rw [List.head?_append, h.starts]
    rfl
  inside w hw := (List.mem_append.mp hw).elim (h.inside w) fun hw => List.mem_singleton.mp hw ▸ hv
  inner w hw := by
    -- What was the end of the path is now inside it.
    obtain ⟨ρ, rfl⟩ := List.getLast?_eq_some_iff.mp hlast
    rw [List.dropLast_concat] at hw
    rcases List.mem_append.mp hw with hw | hw
    · exact h.inner w (by rwa [List.dropLast_concat])
    · exact List.mem_singleton.mp hw ▸ hinner
  initialized := h.initialized
  joined := by
    refine List.isChain_append.mpr ⟨h.joined, .singleton v, fun x hx y hy => ?_⟩
    rw [hlast] at hx
    cases hx
    cases hy
    exact hedge
  nodup := by
    rw [← List.concat_eq_append]
    exact h.nodup.concat hnew
  ended w hw hterminal := by
    rw [List.getLast?_concat] at hw
    exact Option.some.inj hw ▸ hended (Option.some.inj hw ▸ hterminal)
  inTurn := hturn

/-- A vertex that stands for a later call was not visited. For the calls of each statement are
counted along the path, and this one has the next number. -/
theorem Tracked.step_call (h : g.Tracked s π) (hlast : π.getLast? = some u)
    (hinner : g.isTerminal u = false) (hedge : (u, v) ∈ g.ends) {c : Call}
    (hcall : g.callAt? v = some c)
    (hc : c.occurrence = ((g.callsAlong π).map Call.statement).count c.statement) :
    g.Tracked s (π ++ [v]) := by
  have hkind := callAt?_eq_some.mp hcall
  have hv : g.isTerminal v = false := by
    rw [isTerminal_eq, hkind]
    rfl
  refine h.step hlast hinner (lt_size hkind) hedge (fun hmem => ?_) (fun hterminal => ?_) ?_
  · have hold := h.inTurn.lt (List.mem_filterMap.mpr ⟨v, hmem, hcall⟩)
    rw [hc] at hold
    exact Nat.lt_irrefl _ hold
  · rw [hv] at hterminal
    cases hterminal
  · rw [callsAlong_concat, hcall]
    exact h.inTurn.concat hc

/-- A path that has not ended may end at ABORT. It cannot have been there before, since nothing
comes after an end. -/
theorem Tracked.step_abort (h : g.Tracked s π) (hlast : π.getLast? = some u)
    (hinner : g.isTerminal u = false) (hedge : (u, s.abort) ∈ g.ends) :
    g.Tracked s (π ++ [s.abort]) := by
  have habort := h.initialized.abort
  have hterminal : g.isTerminal s.abort = true := (isTerminal_iff h.initialized).mpr (.inr rfl)
  refine h.step hlast hinner (lt_size habort) hedge (fun hmem => ?_) (fun _ => rfl) ?_
  · obtain ⟨ρ, rfl⟩ := List.getLast?_eq_some_iff.mp hlast
    have hnone : g.isTerminal s.abort = false := by
      rcases List.mem_append.mp hmem with hold | hold
      · exact h.inner _ (by rwa [List.dropLast_concat])
      · exact List.mem_singleton.mp hold ▸ hinner
    rw [hnone] at hterminal
    cases hterminal
  · have hnone : g.callAt? s.abort = none := by rw [callAt?, habort]; rfl
    rw [callsAlong_concat, hnone, Option.toList_none, List.append_nil]
    exact h.inTurn

/-! ### Recording a query -/

section Record

variable [Zero R] {q : Query} {p : Procedure} {r : Router} {called called' : List StatementId}
  {step : Step}

/-- A query that is recorded at the end of a path makes it longer by a call, and by ABORT if it aborts
the transaction. The call comes last among those along the path. -/
theorem Tracked.observe (h : g.Tracked s π) (hlast : π.getLast? = some u)
    (hinner : g.isTerminal u = false) (hcalled : (g.callsAlong π).map Call.statement = called)
    (hrun : g.observe u q p r called = .ok (.ok (g', step, called'))) :
    Extends g g' ∧ g'.Tracked s (π ++ step.path)
      ∧ (step.abort = none → g'.isTerminal step.vertex = false)
      ∧ ∃ c, g'.callAt? step.vertex = some c ∧ called' = called ++ [c.statement]
        ∧ g'.callsAlong (π ++ step.path) = g.callsAlong π ++ [c] := by
  obtain ⟨links, hrecording, hleads, _⟩ := h.initialized.recording_observe hrun
  obtain ⟨c, hresolve, hadvance, rfl⟩ := observe_ok hrun
  obtain ⟨hext, hfind, hedge, _, _, habort⟩ := advance_traces hadvance
  have htracked := h.extends hext (hrecording.initialized h.initialized)
  have hcalls := hext.callsAlong h.inside
  obtain ⟨d, hkind, hsame⟩ := findCall?_ok hfind
  have hcall := callAt?_eq_some.mpr hkind
  -- The vertex may have been made for a call of another type, but not for another statement.
  simp only [Call.sameAs, Bool.and_eq_true, beq_iff_eq] at hsame
  obtain ⟨⟨hstatement, hoccurrence⟩, _⟩ := hsame
  have hturn : d.occurrence = ((g'.callsAlong π).map Call.statement).count d.statement := by
    rw [hcalls, hcalled, ← hstatement, ← hoccurrence]
    exact Query.resolve_occurrence hresolve
  have hinner' : g'.isTerminal u = false :=
    (isTerminal_congr (hext.kind? (h.inside u (List.mem_of_getLast? hlast)))).trans hinner
  have hstep := htracked.step_call hlast hinner' hedge hcall hturn
  have hlong : g'.callsAlong (π ++ [step.vertex]) = g.callsAlong π ++ [d] := by
    rw [callsAlong_concat, hcall, hcalls]
    rfl
  have hpath : g'.Tracked s (π ++ step.path)
      ∧ g'.callsAlong (π ++ step.path) = g.callsAlong π ++ [d] := by
    split at habort
    case isTrue =>
      obtain ⟨s', hs', hstop, hend⟩ := habort
      obtain rfl := Option.some.inj (htracked.initialized.placed.symm.trans hs')
      have hnone : g'.callAt? s.abort = none := by
        rw [callAt?, htracked.initialized.abort]
        rfl
      rw [Step.path, hstop, Option.toList_some, List.append_cons, callsAlong_concat, hnone, hlong]
      exact ⟨hstep.step_abort List.getLast?_concat hleads.inner hend, List.append_nil _⟩
    case isFalse =>
      rw [Step.path, habort]
      exact ⟨hstep, hlong⟩
  exact ⟨hext, hpath.1, fun _ => hleads.inner, d, hcall, by rw [hstatement], hpath.2⟩

end Record

end Graph

end TxnPath
