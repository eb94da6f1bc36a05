import Mathlib.Algebra.BigOperators.Group.List.Basic
import Mathlib.Data.Nat.Cast.Basic
import TxnPath.Graph.Replay
import TxnPath.Proofs.Graph.Tally

/-!
# `TxnPath.Proofs.Graph.Recorded`: graphs that hold paths

`Graph.Recorded` says that the hits of a graph are the steps of a list of paths. Each of them
begins at START and comes to COMMIT or ABORT only at its end, if at all, so that some may still
be under way. `Recorded.link` is the one place where a path grows: a link from the end of a path
makes this path longer, whatever the others are. Replaying a trace adds a path
(`Recorded.replay`) even when it is broken off, and recomputing adds nothing
(`Recorded.recompute`).

What happens to the queries of a trace is told case by case by `Graph.Replays`. Proofs about
recorded queries go by its cases (`replayQueries_ok_iff`).
-/

set_option autoImplicit false

namespace TxnPath

namespace Graph

variable {R : Type} {g g' : Graph R} {s : Sentinels} {paths rest : List (List Nat)}
  {π : List Nat} {n u v : Nat}

/-- A list of vertices from START that comes to COMMIT or ABORT at its end at most. It need not end
there: the path of a trace that was rejected stops at a call, and that of an open transaction does
too. -/
structure IsPath (g : Graph R) (s : Sentinels) (π : List Nat) : Prop where
  starts : π.head? = some s.start
  inside : ∀ v ∈ π, v < g.vertices.size
  inner : ∀ v ∈ π.dropLast, g.isTerminal v = false

/-- A graph is initialized, holds the steps of some paths, and has counted some of them as
finished. -/
structure Recorded (g : Graph R) (s : Sentinels) (paths : List (List Nat)) (n : Nat) : Prop where
  initialized : g.Initialized s
  tallied : g.Tallied (paths.flatMap stepsOf)
  path : ∀ π ∈ paths, g.IsPath s π
  txns : g.txns = n

/-- Paths begin at START, where none of them ends. -/
theorem isTerminal_start (h : g.Initialized s) : g.isTerminal s.start = false := by
  rw [isTerminal_eq, h.start]
  rfl

/-- Paths end at the two sentinels that stand for it, and nowhere else. -/
theorem isTerminal_iff (h : g.Initialized s) {v : Nat} :
    g.isTerminal v = true ↔ v = s.commit ∨ v = s.abort := by
  rw [isTerminal_eq]
  constructor
  · intro hany
    obtain ⟨kind, hkind, hterminal⟩ := (Option.any_eq_true _ _).mp hany
    exact h.terminal hkind hterminal
  · rintro (rfl | rfl)
    · rw [h.commit]
      rfl
    · rw [h.abort]
      rfl

/-! ### Paths that begin, and paths that grow -/

/-- A fresh graph holds no path. -/
theorem recorded_fresh (procedure : ProcedureId) (base partitions : Nat) :
    (fresh procedure base partitions : Graph R).Recorded ⟨0, 1, 2⟩ [] 0 where
  initialized := initialized_fresh procedure base partitions
  tallied := by
    refine ⟨List.nodup_nil, fun p => Iff.rfl, nofun, fun v => ?_⟩
    rw [List.flatMap_nil, List.countP_nil, List.countP_nil, ite_self]
    rcases v with _ | _ | _ | v <;> rfl
  path := nofun
  txns := rfl

/-- The paths of a graph may be listed in any order. -/
theorem Recorded.perm {paths' : List (List Nat)} (h : g.Recorded s paths n)
    (hperm : paths.Perm paths') : g.Recorded s paths' n where
  initialized := h.initialized
  tallied := h.tallied.perm (hperm.flatMap_right stepsOf)
  path := fun π hπ => h.path π (hperm.mem_iff.mpr hπ)
  txns := h.txns

/-- A path that has only begun has no steps. -/
theorem Recorded.begin (h : g.Recorded s paths n) : g.Recorded s ([s.start] :: paths) n where
  initialized := h.initialized
  tallied := h.tallied
  path := by
    refine List.forall_mem_cons.mpr ⟨⟨rfl, ?_, nofun⟩, h.path⟩
    exact List.forall_mem_singleton.mpr (lt_size h.initialized.start)
  txns := h.txns

/-- A path that could go on does so by a link from its end. The step is put into the tally, and the
path stays one since its last vertex was not an end. -/
theorem Recorded.link [Zero R] (h : g.Recorded s (π :: rest) n) (hlast : π.getLast? = some u)
    (hinner : g.isTerminal u = false) (hv : v < g.vertices.size) :
    (g.link u v).1.Recorded s ((π ++ [v]) :: rest) n := by
  obtain ⟨ρ, rfl⟩ := List.getLast?_eq_some_iff.mp hlast
  have hπ := h.path _ List.mem_cons_self
  have hu : u < g.vertices.size := hπ.inside u (List.mem_append_right _ List.mem_cons_self)
  have hterminal : ∀ w, (g.link u v).1.isTerminal w = g.isTerminal w :=
    fun w => isTerminal_congr (kind?_link g u v w)
  -- The new step comes first in the tally and last on the path.
  have hperm : ((u, v) :: ((ρ ++ [u]) :: rest).flatMap stepsOf).Perm
      (((ρ ++ [u] ++ [v]) :: rest).flatMap stepsOf) := by
    rw [List.flatMap_cons, List.flatMap_cons, stepsOf_concat, List.append_assoc]
    exact List.perm_middle.symm
  refine ⟨h.initialized.link hu hv, (h.tallied.link hu hv).perm hperm, ?_,
    (txns_link g u v).trans h.txns⟩
  refine List.forall_mem_cons.mpr ⟨⟨?_, ?_, ?_⟩, fun π' hπ' => ?_⟩
  · rw [List.head?_append, hπ.starts]
    rfl
  · intro w hw
    rw [size_link]
    rcases List.mem_append.mp hw with hw | hw
    · exact hπ.inside w hw
    · exact List.mem_singleton.mp hw ▸ hv
  · intro w hw
    rw [List.dropLast_concat] at hw
    rw [hterminal]
    rcases List.mem_append.mp hw with hw | hw
    · exact hπ.inner w (by rwa [List.dropLast_concat])
    · exact List.mem_singleton.mp hw ▸ hinner
  · have hold := h.path π' (List.mem_cons_of_mem _ hπ')
    exact ⟨hold.starts, fun w hw => (size_link g u v).symm ▸ hold.inside w hw,
      fun w hw => (hterminal w).trans (hold.inner w hw)⟩

/-- Where the hits are the same, the same paths are held. -/
theorem Recorded.of_sameHits (h : g.Recorded s paths n) (hinit : g'.Initialized s)
    (hsame : SameHits g g') : g'.Recorded s paths n where
  initialized := hinit
  tallied := h.tallied.of_sameHits hsame
  path := by
    intro π hπ
    have hold := h.path π hπ
    exact ⟨hold.starts, fun v hv => Nat.lt_of_lt_of_le (hold.inside v hv) hsame.size,
      fun v hv => (hsame.terminal v).trans (hold.inner v hv)⟩
  txns := hsame.txns.trans h.txns

/-- Counting a transaction is counting, and adds no step. -/
theorem Recorded.recordTxn (h : g.Recorded s paths n) : g.recordTxn.Recorded s paths (n + 1) where
  initialized := h.initialized.recordTxn
  tallied := ⟨h.tallied.distinct, h.tallied.covered, h.tallied.edge, h.tallied.vertex⟩
  path := fun π hπ => ⟨(h.path π hπ).starts, (h.path π hπ).inside, (h.path π hπ).inner⟩
  txns := congrArg (· + 1) h.txns

/-! ### Recomputing -/

/-- No edge leaves COMMIT or ABORT, for a path that goes on does so from elsewhere. -/
theorem Recorded.ends (h : g.Recorded s paths n) :
    ∀ e ∈ g.edges, e.source ≠ s.commit ∧ e.source ≠ s.abort := by
  intro e he
  have hstep : e.ends ∈ paths.flatMap stepsOf :=
    (h.tallied.covered _).mpr (List.mem_map_of_mem (Array.mem_toList_iff.mpr he))
  obtain ⟨π, hπ, hstep⟩ := List.mem_flatMap.mp hstep
  have hsource : e.source ∈ π.dropLast := map_fst_stepsOf π ▸ List.mem_map_of_mem hstep
  have hinner := (h.path π hπ).inner _ hsource
  rw [← not_or, ← isTerminal_iff h.initialized, hinner]
  exact Bool.false_ne_true

/-- Recomputing a graph that holds paths gives a graph that holds them. -/
theorem Recorded.recompute [Scalar R] (h : g.Recorded s paths n) :
    ∃ g', g.recompute = .ok g' ∧ g'.Recorded s paths n := by
  have hfold := h.of_sameHits h.initialized.foldWindow (sameHits_foldWindow g)
  obtain ⟨_, g', _, hderive, hsame, _⟩ := hfold.initialized.derive_ok hfold.ends
  have hinit := hfold.initialized.unsetTables.weighEdges.of_sameButTables hsame
  exact ⟨g', hderive, hfold.of_sameHits hinit hsame.sameHits⟩

/-! ### Recording queries -/

/-- A call has a vertex of its own, at which no path ends. It was found, and then stands for a call,
or it has been appended for this one. -/
theorem ensureCall_vertex (g : Graph R) (c : Call) :
    (g.ensureCall c).2 < (g.ensureCall c).1.vertices.size
      ∧ (g.ensureCall c).1.isTerminal (g.ensureCall c).2 = false := by
  rw [ensureCall]
  cases hfind : g.findCall? c with
  | some v =>
    obtain ⟨hlt, hsame, _⟩ := Array.findIdx?_eq_some_iff_getElem.mp hfind
    refine ⟨hlt, ?_⟩
    obtain ⟨c', hcall, _⟩ := (Option.any_eq_true _ _).mp hsame
    rw [isTerminal_eq, kind?, Array.getElem?_eq_getElem hlt]
    cases hkind : g.vertices[v].kind with
    | query c => simp [hkind, VertexKind.isTerminal]
    | start | commit | abort => rw [hkind] at hcall; cases hcall
  | none =>
    dsimp only
    rw [isTerminal_eq, kind?_pushVertex, size_pushVertex, if_pos rfl]
    exact ⟨Nat.lt_succ_self _, rfl⟩

/-- A graph with the vertex of a call and its measured time, before the step to it is counted. -/
def prepared (g : Graph R) (c : Call) (q : Query) : Graph R :=
  match q.elapsed with
  | some nanos => (g.ensureCall c).1.addTime (g.ensureCall c).2 nanos
  | none => (g.ensureCall c).1

/-- Preparing a query finds or adds its vertex and measures its time, but hits nothing yet. -/
theorem sameHits_prepared (g : Graph R) (c : Call) (q : Query) :
    SameHits (g.ensureCall c).1 (g.prepared c q) := by
  rw [prepared]
  cases q.elapsed with
  | none => exact .refl _
  | some nanos => exact sameHits_addTime _ _ nanos

/-- Preparing a query keeps a graph initialized. -/
theorem Initialized.prepared (h : g.Initialized s) (c : Call) (q : Query) :
    (g.prepared c q).Initialized s := by
  rw [Graph.prepared]
  cases q.elapsed with
  | none => exact h.ensureCall c
  | some nanos => exact (h.ensureCall c).addTime _ nanos

/-- Where a path stands after a query: at ABORT if the query aborted it, else at the call. -/
structure Stands (g : Graph R) (s : Sentinels) (aborted : Bool) (step : Step) : Prop where
  abort : step.abort = if aborted then some s.abort else none
  inner : g.isTerminal step.vertex = false

/-- A step leads on to ABORT exactly if its query aborted. -/
theorem Stands.isSome_abort {aborted : Bool} {step : Step} (h : g.Stands s aborted step) :
    step.abort.isSome = aborted := by
  rw [h.abort]
  cases aborted <;> rfl

section Replay

variable [Zero R]

/-- A call is recorded by a link in the graph prepared for it, and by one to ABORT if it aborts.
Preparing, which makes the vertex and notes the time, is named so that it can be reasoned about
apart from the links. -/
theorem advance_ok {c : Call} {q : Query} {step : Step} (hrun : g.advance u c q = .ok (g', step)) :
    ∃ r, (g.prepared c q).link? u (g.ensureCall c).2 = .ok r
      ∧ if q.aborted then ∃ s, r.1.requireSentinels = .ok s
          ∧ (r.1.link (g.ensureCall c).2 s.abort).1 = g'
          ∧ ⟨(g.ensureCall c).2, some s.abort⟩ = step
        else r.1 = g' ∧ ⟨(g.ensureCall c).2, none⟩ = step := by
  rw [advance] at hrun
  obtain ⟨r, hlink, hrun⟩ := Outcome.bind_ok hrun
  refine ⟨r, ?_, ?_⟩
  -- The link to the vertex of the call, with or without a time to add first.
  · rw [prepared]
    cases helapsed : q.elapsed with
    | none => rwa [helapsed] at hlink
    | some nanos => rwa [helapsed] at hlink
  -- The second link, which only an aborted query has.
  · cases haborted : q.aborted with
    | false =>
      rw [haborted] at hrun
      cases hrun
      exact ⟨rfl, rfl⟩
    | true =>
      rw [haborted] at hrun
      obtain ⟨s, hs, hrun⟩ := Outcome.bind_ok hrun
      cases hrun
      exact ⟨s, hs, rfl, rfl⟩

/-- Recording a call makes a path longer by its vertex, and by ABORT if the query aborted. Making
the vertex and noting how long the call took changes no hits, so that only the links count. -/
theorem Recorded.advance {c : Call} {q : Query} {step : Step} (h : g.Recorded s (π :: rest) n)
    (hlast : π.getLast? = some u) (hinner : g.isTerminal u = false)
    (hrun : g.advance u c q = .ok (g', step)) :
    g'.Recorded s ((π ++ step.path) :: rest) n ∧ g'.Stands s q.aborted step := by
  have hsame := (sameHits_ensureCall g c).trans (sameHits_prepared g c q)
  have hprepared := h.of_sameHits (h.initialized.prepared c q) hsame
  have hcall := ((sameHits_prepared g c q).terminal _).trans (ensureCall_vertex g c).2
  obtain ⟨⟨g₁, e⟩, hlink, hrun⟩ := advance_ok hrun
  generalize (g.ensureCall c).2 = v at hlink hrun hcall
  rw [Graph.link?] at hlink
  split at hlink
  case isFalse => cases hlink
  case isTrue hlt =>
  have hlinked := hprepared.link hlast ((hsame.terminal u).trans hinner) hlt.2
  have hkind := isTerminal_congr (kind?_link (g.prepared c q) u v v)
  rw [Except.ok.inj hlink] at hlinked hkind
  cases haborted : q.aborted with
  | false =>
    rw [haborted] at hrun
    obtain ⟨rfl, rfl⟩ := hrun
    exact ⟨hlinked, rfl, hkind.trans hcall⟩
  | true =>
    rw [haborted] at hrun
    obtain ⟨s', hs', rfl, rfl⟩ := hrun
    rw [hlinked.initialized.requireSentinels_eq] at hs'
    cases hs'
    -- The call is not the end of the path, so that ABORT can follow it.
    have hend := hlinked.link List.getLast?_concat (hkind.trans hcall)
      (lt_size hlinked.initialized.abort)
    rw [List.append_assoc] at hend
    exact ⟨hend, rfl, (isTerminal_congr (kind?_link g₁ v s.abort v)).trans (hkind.trans hcall)⟩

variable {p : Procedure} {r : Router} {called : List StatementId}

/-- A query that is recorded makes a path longer. -/
theorem Recorded.observe {q : Query} {called' : List StatementId} {step : Step}
    (h : g.Recorded s (π :: rest) n) (hlast : π.getLast? = some u)
    (hinner : g.isTerminal u = false)
    (hrun : g.observe u q p r called = .ok (.ok (g', step, called'))) :
    g'.Recorded s ((π ++ step.path) :: rest) n ∧ g'.Stands s q.aborted step := by
  rw [Graph.observe] at hrun
  split at hrun
  · cases hrun
  · split at hrun
    · cases hrun
    case h_2 hadvance =>
      cases hrun
      exact h.advance hlast hinner hadvance

/-- What happens to queries, from the first on: all are recorded, or one cannot be resolved, or one
aborts. -/
inductive Replays (p : Procedure) (r : Router) :
    Graph R → Nat → List StatementId → List Query → Graph R → List Nat → Except Error Bool → Prop
  | done (g : Graph R) (u : Nat) (called : List StatementId) :
    Replays p r g u called [] g [] (.ok false)
  | rejected {g : Graph R} {u : Nat} {called : List StatementId} {q : Query} {qs : List Query}
    {e : Error} : g.observe u q p r called = .ok (.error e) →
      Replays p r g u called (q :: qs) g [] (.error e)
  | aborted {g g' : Graph R} {u : Nat} {called called' : List StatementId} {q : Query}
    {qs : List Query} {step : Step} : g.observe u q p r called = .ok (.ok (g', step, called')) →
      step.abort.isSome = true → Replays p r g u called (q :: qs) g' step.path (.ok true)
  | went {g g₁ g' : Graph R} {u : Nat} {called called' : List StatementId} {q : Query}
    {qs : List Query} {step : Step} {visited : List Nat} {result : Except Error Bool} :
    g.observe u q p r called = .ok (.ok (g₁, step, called')) → step.abort = none →
      Replays p r g₁ step.vertex called' qs g' visited result →
      Replays p r g u called (q :: qs) g' (step.vertex :: visited) result

/-- Replaying queries is one of the four cases of `Replays`. Proofs about what was recorded go by
these cases, and need not follow the matches of the function. -/
theorem replayQueries_ok_iff {qs : List Query} {visited : List Nat} {result : Except Error Bool} :
    Graph.replayQueries p r g u called qs = .ok (g', visited, result)
      ↔ Replays p r g u called qs g' visited result := by
  constructor
  · intro hrun
    -- Each branch of the function is one of the cases; going on is the only one that recurses.
    induction qs generalizing g u called visited with
    | nil =>
      cases hrun
      exact .done ..
    | cons q qs ih =>
      rw [Graph.replayQueries] at hrun
      split at hrun
      · cases hrun
      case h_2 hobserve =>
        cases hrun
        exact .rejected hobserve
      case h_3 hobserve =>
        split at hrun
        case isTrue haborted =>
          cases hrun
          exact .aborted hobserve haborted
        case isFalse hopen =>
          split at hrun
          · cases hrun
          case h_2 hrest =>
            cases hrun
            exact .went hobserve (Option.not_isSome_iff_eq_none.mp hopen) (ih hrest)
  · intro hreplays
    induction hreplays with
    | done => rfl
    | rejected hobserve => rw [Graph.replayQueries, hobserve]
    | aborted hobserve haborted =>
      rw [Graph.replayQueries, hobserve]
      exact if_pos haborted
    | went hobserve hopen _ ih =>
      rw [Graph.replayQueries, hobserve]
      dsimp only
      rw [hopen, Option.isSome_none, if_neg Bool.false_ne_true, ih]

/-- Where a path stands after queries, if all that came before an abort were recorded. -/
def StandsAfter (g : Graph R) (s : Sentinels) (qs : List Query) (π : List Nat) (aborted : Bool) :
    Prop :=
  aborted = qs.any Query.aborted ∧ ∃ u, π.getLast? = some u
    ∧ if aborted then u = s.abort else g.isTerminal u = false

/-- Queries make a path longer by the vertices visited, also where they are broken off. If they were
all recorded, the path has come to ABORT if one of them aborted, and otherwise to a vertex from
which it can go on. -/
theorem Recorded.replayQueries {qs : List Query} {visited : List Nat} {result : Except Error Bool}
    (h : g.Recorded s (π :: rest) n) (hlast : π.getLast? = some u)
    (hinner : g.isTerminal u = false)
    (hrun : Graph.replayQueries p r g u called qs = .ok (g', visited, result)) :
    g'.Recorded s ((π ++ visited) :: rest) n
      ∧ ∀ aborted, result = .ok aborted → g'.StandsAfter s qs (π ++ visited) aborted := by
  rw [replayQueries_ok_iff] at hrun
  induction hrun generalizing π with
  | done g u =>
    rw [List.append_nil]
    refine ⟨h, fun aborted haborted => ?_⟩
    cases haborted
    exact ⟨rfl, u, hlast, hinner⟩
  -- A rejected query may have left a vertex and a time behind, but no step.
  | rejected hobserve =>
    rw [List.append_nil]
    exact ⟨h, nofun⟩
  | @aborted _ _ _ _ _ q _ step hobserve hended =>
    obtain ⟨hstep, hstands⟩ := h.observe hlast hinner hobserve
    have haborted := hstands.isSome_abort.symm.trans hended
    refine ⟨hstep, fun aborted hresult => ?_⟩
    cases hresult
    rw [Step.path, hstands.abort, if_pos haborted]
    exact ⟨by rw [List.any_cons, haborted, Bool.true_or], s.abort, by simp, rfl⟩
  | @went _ _ _ _ _ _ q _ step _ _ hobserve hopen _ ih =>
    obtain ⟨hstep, hstands⟩ := h.observe hlast hinner hobserve
    have haborted : q.aborted = false := by
      rw [← hstands.isSome_abort, hopen, Option.isSome_none]
    rw [Step.path, hopen] at hstep
    obtain ⟨hall, hafter⟩ := ih hstep List.getLast?_concat hstands.inner
    rw [List.append_assoc] at hall hafter
    refine ⟨hall, fun aborted hresult => ?_⟩
    obtain ⟨hany, hend⟩ := hafter aborted hresult
    exact ⟨by rw [List.any_cons, haborted, Bool.false_or, hany], hend⟩

/-- The path of a trace whose queries visited some vertices: it has an end if an abort led there, or
if all of them could be recorded. -/
def tracePath (s : Sentinels) (t : Trace) (visited : List Nat) : Except Error Bool → List Nat
  | .ok false => s.start :: visited ++ [if t.aborted then s.abort else s.commit]
  | _ => s.start :: visited

/-- The path that replaying a trace adds to a graph. -/
def replayPath (g : Graph R) (t : Trace) (p : Procedure) (r : Router) : List Nat :=
  match g.sentinels with
  | none => []
  | some s =>
    match replayQueries p r g s.start [] t.queries with
    | .error _ => [s.start]
    | .ok (_, visited, result) => tracePath s t visited result

/-- Replaying a trace adds its path, also where it is broken off, and counts it if it is complete. A
complete path ends at ABORT if the transaction aborted, and else at COMMIT. -/
theorem Recorded.replay {t : Trace} {result : Except Error (List Nat)} (h : g.Recorded s paths n)
    (hrun : g.replay t p r = .ok (g', result)) :
    g'.Recorded s (g.replayPath t p r :: paths) (n + if result.isOk then 1 else 0)
      ∧ ∀ path, result = .ok path → path = g.replayPath t p r
        ∧ path.getLast? = some (if t.isAborted then s.abort else s.commit) := by
  rw [Graph.replay, h.initialized.requireSentinels_eq] at hrun
  obtain ⟨_, hs, hrun⟩ := Outcome.bind_ok hrun
  cases hs
  obtain ⟨⟨g₁, visited, stop⟩, hqueries, hrun⟩ := Outcome.bind_ok hrun
  have hpath : g.replayPath t p r = tracePath s t visited stop := by
    rw [replayPath, h.initialized.placed]
    dsimp only
    rw [hqueries]
  obtain ⟨hall, hstands⟩ := h.begin.replayQueries rfl (isTerminal_start h.initialized) hqueries
  rw [hpath]
  rcases stop with e | _ | _
  · cases hrun
    exact ⟨hall, nofun⟩
  -- No query aborted, so the path goes on from where it stands, to COMMIT or ABORT.
  · obtain ⟨hany, u, hlast, hinner⟩ := hstands false rfl
    have hend : (if t.aborted then s.abort else s.commit) < g₁.vertices.size := by
      split
      · exact lt_size hall.initialized.abort
      · exact lt_size hall.initialized.commit
    have hgetLast : (s.start :: visited).getLast (List.cons_ne_nil _ _) = u :=
      List.getLast_of_getLast?_eq_some hlast
    cases hrun
    rw [hgetLast]
    refine ⟨(hall.link hlast hinner hend).recordTxn, fun path hpath => ?_⟩
    cases hpath
    exact ⟨rfl, by rw [Trace.isAborted, ← hany, Bool.or_false, List.getLast?_concat]⟩
  -- An aborted query has led to ABORT already: the path is at its end.
  · obtain ⟨hany, u, hlast, hend⟩ := hstands true rfl
    cases hrun
    refine ⟨hall.recordTxn, fun path hpath => ?_⟩
    cases hpath
    refine ⟨rfl, ?_⟩
    rw [Trace.isAborted, ← hany, Bool.or_true, if_pos rfl, ← show u = s.abort from hend]
    exact hlast

end Replay

/-! ### What the counters say -/

/-- How often one vertex directly follows another on a path. -/
def follows (π : List Nat) (a b : Nat) : Nat := (stepsOf π).count (a, b)

/-- The counters of a graph are those of some paths, of which some are finished. -/
structure Counts (g : Graph R) (paths : List (List Nat)) (finished : Nat) : Prop where
  /-- An edge was hit as often as its target directly follows its source. -/
  edge : ∀ e ∈ g.edges,
    e.totalHits + e.windowHits = (paths.map fun π => follows π e.source e.target).sum
  /-- Where a vertex follows another there is an edge. -/
  covered : ∀ π ∈ paths, ∀ a b, 0 < follows π a b → ∃ e ∈ g.edges, e.ends = (a, b)
  /-- There is at most one edge between two vertices. -/
  distinct : (g.edges.toList.map Edge.ends).Nodup
  /-- A vertex at which no path ends was hit as often as paths went on from there. -/
  inner : ∀ v x, g.vertices[v]? = some x → x.kind.isTerminal = false →
    x.totalHits + x.windowHits = (paths.map fun π => π.dropLast.count v).sum
  /-- COMMIT and ABORT were hit as often as paths reached them. -/
  terminal : ∀ v x, g.vertices[v]? = some x → x.kind.isTerminal = true →
    x.totalHits + x.windowHits = paths.countP fun π => v ∈ π
  /-- The transactions recorded are the finished ones. -/
  txns : g.txns = finished

/-- A path comes to COMMIT or ABORT once at most, and then its last step leads there. All vertices
but the last are inner ones, and the first is START, which is no end. -/
theorem IsPath.count_tail (h : g.IsPath s π) (hinit : g.Initialized s)
    (hv : g.isTerminal v = true) : π.tail.count v = if v ∈ π then 1 else 0 := by
  obtain ⟨ρ, w, rfl⟩ : ∃ ρ w, π = ρ ++ [w] := by
    have hne : π ≠ [] := by
      intro hnil
      have hstarts := h.starts
      rw [hnil] at hstarts
      cases hstarts
    exact ⟨_, _, (List.dropLast_append_getLast hne).symm⟩
  have hinner := h.inner
  rw [List.dropLast_concat] at hinner
  have hρ : v ∉ ρ := fun hmem => Bool.false_ne_true ((hinner v hmem).symm.trans hv)
  cases ρ with
  | nil =>
    -- The path has only begun, and does not begin at an end.
    have hstart : w = s.start := Option.some.inj h.starts
    have hne : v ≠ w := by
      rintro rfl
      rw [hstart, isTerminal_start hinit] at hv
      cases hv
    simp [hne]
  | cons u ρ =>
    rw [List.cons_append, List.tail_cons, List.count_append,
      List.count_eq_zero.mpr fun hmem => hρ (List.mem_cons_of_mem u hmem), Nat.zero_add,
      ← List.cons_append]
    by_cases hvw : v = w
    · simp [hvw]
    · have hwv : w ≠ v := Ne.symm hvw
      simp only [List.mem_append, hρ, List.mem_singleton, hvw, or_self, if_false]
      simp [hwv]

/-- The counters of a graph that holds paths are those of its paths. Hits were tallied step by step;
an inner vertex is hit by the steps that leave it and an end by those that enter it, which is once
for each path that ends there. -/
theorem Recorded.counts (h : g.Recorded s paths n) : g.Counts paths n where
  edge := by
    intro e he
    show e.hits = _
    rw [h.tallied.edge e he, List.count_flatMap]
    rfl
  covered := by
    intro π hπ a b hfollows
    have hstep : (a, b) ∈ paths.flatMap stepsOf :=
      List.mem_flatMap.mpr ⟨π, hπ, List.count_pos_iff.mp hfollows⟩
    obtain ⟨e, he, hends⟩ := List.mem_map.mp ((h.tallied.covered _).mp hstep)
    exact ⟨e, Array.mem_toList_iff.mp he, hends⟩
  distinct := h.tallied.distinct
  inner := by
    intro v x hx hinner
    have hhits := h.tallied.vertex v
    rw [vertexHits, isTerminal, hx, Option.elim_some, Option.any_some, hinner,
      List.countP_flatMap] at hhits
    refine hhits.trans ?_
    simp [Function.comp_def, countP_fst_stepsOf]
  terminal := by
    intro v x hx hterminal
    have hv : g.isTerminal v = true := by rw [isTerminal, hx, Option.any_some, hterminal]
    have hhits := h.tallied.vertex v
    rw [vertexHits, hx, Option.elim_some, hv, if_pos rfl, List.countP_flatMap,
      List.countP_flatMap] at hhits
    -- No path goes on from here, and every path that comes here does so once.
    have hnone : (paths.map ((List.countP fun p => p.1 == v) ∘ stepsOf)).sum = 0 := by
      refine List.sum_eq_zero fun y hy => ?_
      obtain ⟨π, hπ, rfl⟩ := List.mem_map.mp hy
      rw [Function.comp_apply, countP_fst_stepsOf, List.count_eq_zero]
      exact fun hmem => Bool.false_ne_true (((h.path π hπ).inner v hmem).symm.trans hv)
    have honce : paths.map ((List.countP fun p => p.2 == v) ∘ stepsOf)
        = paths.map fun π => if v ∈ π then 1 else 0 := by
      refine List.map_congr_left fun π hπ => ?_
      rw [Function.comp_apply, countP_snd_stepsOf, (h.path π hπ).count_tail h.initialized hv]
    rw [hnone, honce, Nat.zero_add] at hhits
    refine hhits.trans ?_
    rw [List.sum_map_ite]
    simp [List.countP_eq_length_filter]
  txns := h.txns

end Graph

end TxnPath
