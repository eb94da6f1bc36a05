import TxnPath.Proofs.Catalog
import TxnPath.Proofs.Graph.Counters

/-!
# `TxnPath.Proofs.Graph.Rejected`: traces that are rejected

A query is checked before anything is recorded of it: its statement must be one of the procedure's, and
it must be routed to at least one partition. A trace, however, is recorded query by query, and nothing
takes back what was recorded when a later query does not pass. `replay_rejected` says what stays of a
rejected trace (`Graph.Rejected`): the queries before the one that was rejected, without the end of the
path and without a transaction to count. The graph is as before the call exactly if it was the first
query that was rejected.
-/

set_option autoImplicit false

namespace TxnPath

/-- A query is resolved to a call of its own statement. -/
theorem Query.resolve_statement {q : Query} {p : Procedure} {r : Router} {base : Nat}
    {called : List StatementId} {c : Call} (h : q.resolve p r base called = .ok c) :
    c.statement = q.statement := by
  rw [resolve] at h
  split at h
  · cases h
  case h_2 s hs =>
    split at h
    · cases h
    · split at h
      · cases h
      · cases h
        exact Procedure.statement?_id hs

namespace Graph

variable {R : Type} [Zero R] {g g' : Graph R} {u : Nat} {p : Procedure} {r : Router}
  {called : List StatementId}

/-- A query is rejected before anything is recorded, when it is resolved. -/
theorem observe_error {q : Query} {e : Error} (hrun : g.observe u q p r called = .ok (.error e)) :
    q.resolve p r g.base called = .error e := by
  rw [observe] at hrun
  split at hrun
  case h_1 hresolve =>
    cases hrun
    exact hresolve
  case h_2 => split at hrun <;> cases hrun

/-- Queries that are rejected are recorded up to the one that cannot be resolved. Whether it can be
depends on the statements called before, which are those of the queries in front of it. -/
theorem replayQueries_error {qs : List Query} {visited : List Nat} {e : Error}
    (hrun : replayQueries p r g u called qs = .ok (g', visited, .error e)) :
    ∃ before q after, qs = before ++ q :: after
      ∧ replayQueries p r g u called before = .ok (g', visited, .ok false)
      ∧ q.resolve p r g.base (called ++ before.map Query.statement) = .error e := by
  rw [replayQueries_ok_iff] at hrun
  simp only [replayQueries_ok_iff]
  generalize hresult : Except.error e = result at hrun
  induction hrun with
  | done => cases hresult
  | rejected hobserve =>
    cases hresult
    exact ⟨[], _, _, rfl, .done .., by simpa using observe_error hobserve⟩
  | aborted => cases hresult
  -- The rejected query is further on, and the statements called before it include this one.
  | @went _ _ _ _ _ _ q _ _ _ _ hobserve hopen _ ih =>
    obtain ⟨before, q', after, rfl, hbefore, hresolve⟩ := ih hresult
    refine ⟨q :: before, q', after, rfl, .went hobserve hopen hbefore, ?_⟩
    obtain ⟨c, hc, _, rfl⟩ := observe_ok hobserve
    rw [(extends_observe hobserve).base, List.append_assoc, Query.resolve_statement hc] at hresolve
    exact hresolve

/-- A trace was rejected at the query that comes behind some others. -/
structure Rejected (g : Graph R) (t : Trace) (p : Procedure) (r : Router) (e : Error) (g' : Graph R)
    (before : List Query) : Prop where
  /-- Whether a query is rejected is a matter of the statements called before, and not of the graph. -/
  query : ∃ q after, t.queries = before ++ q :: after
    ∧ q.resolve p r g.base (before.map Query.statement) = .error e
  /-- The queries before it are recorded, as they would be if the path went on. -/
  recorded : ∃ s visited, g.sentinels = some s
    ∧ replayQueries p r g s.start [] before = .ok (g', visited, .ok false)
    ∧ ∀ v, g'.vertexHits v = g.vertexHits v + g.hitsBy (stepsOf (s.start :: visited)) v
  /-- No transaction is counted. -/
  txns : g'.txns = g.txns
  windowTxns : g'.windowTxns = g.windowTxns
  /-- Nothing is left behind if there was nothing to record before. -/
  same_iff : g' = g ↔ before = []

/-- A rejected trace leaves behind what was recorded before the query that was rejected, and nothing
else. Its queries up to there have vertices, edges and hits, as if the path went on; but the path is
not led to an end, and no transaction is counted. So the graph is unchanged exactly if the very
first query was rejected. -/
theorem replay_rejected {t : Trace} {e : Error} (hrun : g.replay t p r = .ok (g', .error e)) :
    ∃ before, Rejected g t p r e g' before := by
  rw [replay] at hrun
  obtain ⟨s, hs, hrun⟩ := Outcome.bind_ok hrun
  obtain ⟨⟨g₁, visited, stop⟩, hqueries, hrun⟩ := Outcome.bind_ok hrun
  rcases stop with e' | _ | _ <;> cases hrun
  obtain ⟨before, q, after, hsplit, hbefore, hresolve⟩ := replayQueries_error hqueries
  -- None of the queries before has aborted, so that no step leads to ABORT.
  have hrecording := recording_replayQueries hbefore fun haborted => by cases haborted
  have hhits : ∀ v, g'.vertexHits v = g.vertexHits v + g.hitsBy (stepsOf (s.start :: visited)) v :=
    fun v => by rw [hrecording.vertexHits, g.hitsBy_perm (List.reverse_perm _)]
  obtain ⟨htxns, hwindow⟩ := Prod.mk.inj (txnCounts_replayQueries hbefore)
  refine ⟨before, ⟨q, after, hsplit, hresolve⟩,
    ⟨s, visited, requireSentinels_ok_iff.mp hs, hbefore, hhits⟩, htxns, hwindow, ?_⟩
  constructor
  · -- The first step leaves START, so that its hits would tell.
    intro hsame
    by_contra hne
    obtain ⟨v, rest, rfl⟩ := List.exists_cons_of_ne_nil (visited_ne_nil hne hbefore)
    have hstart := hhits s.start
    rw [hsame, stepsOf_cons_cons, hitsBy_cons, if_pos rfl] at hstart
    omega
  · rintro rfl
    cases hbefore
    rfl

/-! ### A trace that is rejected at its second query -/

section Derailed

open GraphRecord

/-- A debit, and then a call of a statement that the procedure lacks. -/
def derailed : Trace := ⟨1, 0, [], [⟨0, [], 0, false, none⟩, ⟨7, [], 1, false, none⟩], false⟩

/-- The trace is rejected, but START was hit. -/
theorem derailed_replay : ∃ g', (fresh 0 0 1 : Graph Rat).replay derailed payment payRouter
      = .ok (g', .error (.catalog (.statementId "pay" 7))) ∧ g'.vertexHits 0 = 1 := by
  have hrun : ((fresh 0 0 1 : Graph Rat).replay derailed payment payRouter).toOption.map
      (fun out => (out.2, out.1.vertexHits 0))
        = some (.error (.catalog (.statementId "pay" 7)), 1) := by
    decide +kernel
  obtain ⟨⟨g', result⟩, hreplay, hout⟩ := Option.map_eq_some_iff.mp hrun
  obtain ⟨rfl, hhits⟩ := Prod.mk.inj hout
  exact ⟨g', Outcome.of_toOption hreplay, hhits⟩

/-- The debit is left behind. -/
theorem replay_rejected_derailed :
    ∃ g' before, (fresh 0 0 1 : Graph Rat).replay derailed payment payRouter
        = .ok (g', .error (.catalog (.statementId "pay" 7)))
      ∧ Rejected (fresh 0 0 1) derailed payment payRouter (.catalog (.statementId "pay" 7)) g' before
      ∧ before ≠ [] ∧ g'.txns = 0 := by
  obtain ⟨g', hrun, hhits⟩ := derailed_replay
  obtain ⟨before, hrejected⟩ := replay_rejected hrun
  refine ⟨g', before, hrun, hrejected, fun hnil => ?_, hrejected.txns⟩
  rw [hrejected.same_iff.mpr hnil] at hhits
  cases hhits

/-- A graph is not always as before when a trace was rejected. -/
theorem derailed_marks :
    ¬ ∀ (g g' : Graph Rat) (t : Trace) (p : Procedure) (r : Router) (e : Error),
      g.replay t p r = .ok (g', .error e) → g' = g := by
  intro hsame
  obtain ⟨g', hrun, hhits⟩ := derailed_replay
  rw [hsame _ _ _ _ _ _ hrun] at hhits
  cases hhits

end Derailed

end Graph

end TxnPath
