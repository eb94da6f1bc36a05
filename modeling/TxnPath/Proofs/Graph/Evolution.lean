import Mathlib
import TxnPath.Proofs.Graph.Arena

/-!
# `TxnPath.Proofs.Graph.Evolution`: graphs that operations lead to

`Graph.Reached` are the graphs that operations lead to, from a fresh one or from one that was read
from an archive, and `Graph.Evolves` says that they lead from one graph to another. Such graphs are
tidy (`Reached.tidy`), and what they have evolved from is part of them (`Tidy.evolves`).

As calls and steps are found again, a trace that was recorded can be recorded any time later, whatever
has happened since. It then takes the same path, and creates nothing (`Extends.replay_again`).
-/

set_option autoImplicit false

namespace TxnPath

namespace Graph

variable {R : Type} {g g' : Graph R} {s : Sentinels}

/-- The sentinels can be asked for if they have been inserted. -/
theorem requireSentinels_ok_iff : g.requireSentinels = .ok s ↔ g.sentinels = some s := by
  rw [requireSentinels]
  cases g.sentinels <;> simp

/-! ### Recording again -/

/-- A call that has a vertex is prepared for without a change of layout. -/
theorem sameLayout_prepared {c : Call} {v : Nat} (hfind : g.findCall? c = some v) (q : Query) :
    g.ensureCall c = (g, v) ∧ SameLayout g (g.prepared c q) := by
  have hensure : g.ensureCall c = (g, v) := by rw [ensureCall, hfind]
  refine ⟨hensure, ?_⟩
  rw [prepared, hensure]
  cases q.elapsed with
  | none => exact .refl g
  | some nanos => exact sameLayout_addTime g v nanos

/-- Preparing a query extends the graph by the vertex of its call, if that is new. -/
theorem extends_prepared (g : Graph R) (c : Call) (q : Query) :
    Extends (g.ensureCall c).1 (g.prepared c q) := by
  rw [prepared]
  cases q.elapsed with
  | none => exact .refl _
  | some nanos => exact (sameLayout_addTime _ _ nanos).extends

section Again

variable [Zero R] {h : Graph R} {u : Nat} {c : Call} {q : Query} {step : Step} {p : Procedure}
  {r : Router} {called called' : List StatementId}

/-- What recording a call leaves behind: the call has its vertex, and the steps to it and from it to
ABORT have their edges. -/
theorem advance_traces (hrun : g.advance u c q = .ok (g', step)) :
    Extends g g' ∧ g'.findCall? c = some step.vertex ∧ (u, step.vertex) ∈ g'.ends
      ∧ u < g'.vertices.size ∧ step.vertex < g'.vertices.size
      ∧ if q.aborted then ∃ s, g'.sentinels = some s ∧ step.abort = some s.abort
          ∧ (step.vertex, s.abort) ∈ g'.ends
        else step.abort = none := by
  -- What is there when the step is linked is still there at the end, also behind a link to ABORT.
  have hcall := findCall?_ensureCall g c
  have hmade := (extends_ensureCall g c).trans (extends_prepared g c q)
  obtain ⟨⟨g₁, i⟩, hlink, hrun⟩ := advance_ok hrun
  have hfound := (extends_prepared g c q).findCall? hcall
  generalize (g.ensureCall c).2 = v at hlink hrun hfound
  rw [link?] at hlink
  split at hlink
  case isFalse => cases hlink
  case isTrue hlt =>
  have hstep := extends_link (g.prepared c q) u v
  have hmem := mem_ends_link (g.prepared c q) u v
  rw [Except.ok.inj hlink] at hstep hmem
  have hall : ∀ {g'}, Extends g₁ g' → Extends g g' ∧ g'.findCall? c = some v ∧ (u, v) ∈ g'.ends
      ∧ u < g'.vertices.size ∧ v < g'.vertices.size := fun hext =>
    have hext' := hstep.trans hext
    ⟨hmade.trans hext', hext'.findCall? hfound, hext.ends.subset hmem,
      Nat.lt_of_lt_of_le hlt.1 hext'.size, Nat.lt_of_lt_of_le hlt.2 hext'.size⟩
  split at hrun
  case isTrue haborted =>
    obtain ⟨s, hs, rfl, rfl⟩ := hrun
    obtain ⟨hext, hcall, hmem, hu, hv⟩ := hall (extends_link g₁ v s.abort)
    refine ⟨hext, hcall, hmem, hu, hv, ?_⟩
    rw [if_pos haborted]
    exact ⟨s, (sentinels_link ..).trans (requireSentinels_ok_iff.mp hs), rfl, mem_ends_link ..⟩
  case isFalse hopen =>
    obtain ⟨rfl, rfl⟩ := hrun
    obtain ⟨hext, hcall, hmem, hu, hv⟩ := hall (.refl g₁)
    exact ⟨hext, hcall, hmem, hu, hv, by rw [if_neg hopen]⟩

/-- A call that was recorded is recorded again by the same steps, in whatever has become of the
graph. -/
theorem Extends.advance_again (hext : Extends g' h) (hrun : g.advance u c q = .ok (g', step)) :
    ∃ h', h.advance u c q = .ok (h', step) ∧ SameLayout h h' := by
  obtain ⟨_, hcall, hmem, hu, hv, habort⟩ := advance_traces hrun
  obtain ⟨v, last⟩ := step
  obtain ⟨hensure, hprepared⟩ := sameLayout_prepared (hext.findCall? hcall) q
  have hlt : u < (h.prepared c q).vertices.size ∧ v < (h.prepared c q).vertices.size := by
    rw [hprepared.size]
    exact ⟨Nat.lt_of_lt_of_le hu hext.size, Nat.lt_of_lt_of_le hv hext.size⟩
  have hlinked := hprepared.trans
    (sameLayout_link (hprepared.ends ▸ hext.ends.subset hmem : (u, v) ∈ (h.prepared c q).ends))
  -- The vertex and the edge are found where they were, so that only hits are added.
  rw [advance_eq, hensure, link?, if_pos hlt]
  dsimp only [Except.bind]
  split at habort
  case isTrue haborted =>
    obtain ⟨s, hs, rfl, hmem⟩ := habort
    have hsentinels := requireSentinels_ok_iff.mpr
      ((hlinked.sentinels.trans hext.sentinels).trans hs)
    rw [if_pos haborted, hsentinels]
    refine ⟨_, rfl, hlinked.trans (sameLayout_link ?_)⟩
    exact hlinked.ends ▸ hext.ends.subset hmem
  case isFalse hopen =>
    obtain rfl := habort
    rw [if_neg hopen]
    exact ⟨_, rfl, hlinked⟩

/-- Observing a query extends the graph by its vertex and its edges. -/
theorem extends_observe (hrun : g.observe u q p r called = .ok (.ok (g', step, called'))) :
    Extends g g' := by
  obtain ⟨c, _, hadvance, _⟩ := observe_ok hrun
  exact (advance_traces hadvance).1

/-- A query that was observed can be observed in any extension of the graph, with the same step, and
leaves its layout alone. -/
theorem Extends.observe_again (hext : Extends g' h)
    (hrun : g.observe u q p r called = .ok (.ok (g', step, called'))) :
    ∃ h', h.observe u q p r called = .ok (.ok (h', step, called')) ∧ SameLayout h h' := by
  have hbase := ((extends_observe hrun).trans hext).base
  obtain ⟨c, hresolve, hadvance, rfl⟩ := observe_ok hrun
  obtain ⟨h', hadvance', hsame⟩ := hext.advance_again hadvance
  refine ⟨h', ?_, hsame⟩
  rw [observe, hbase, hresolve]
  dsimp only
  rw [hadvance']

/-- A query that cannot be resolved in one graph cannot be resolved in another of its base. -/
theorem observe_error_again {e : Error} (hbase : h.base = g.base)
    (hrun : g.observe u q p r called = .ok (.error e)) :
    h.observe u q p r called = .ok (.error e) := by
  rw [observe] at hrun ⊢
  rw [hbase]
  split at hrun
  case h_1 => exact hrun
  case h_2 => split at hrun <;> cases hrun

/-- So do several queries, one after the other, whatever becomes of the last one. -/
theorem extends_replayQueries {qs : List Query} {visited : List Nat} {result : Except Error Bool}
    (hrun : replayQueries p r g u called qs = .ok (g', visited, result)) : Extends g g' := by
  rw [replayQueries_ok_iff] at hrun
  induction hrun with
  | done g => exact .refl g
  | rejected => exact .refl _
  | aborted hobserve _ => exact extends_observe hobserve
  | went hobserve _ _ ih => exact (extends_observe hobserve).trans ih

/-- Queries that were recorded, up to the first that cannot be resolved, are recorded again by the
same steps. -/
theorem Extends.replayQueries_again {qs : List Query} {visited : List Nat}
    {result : Except Error Bool} (hext : Extends g' h)
    (hrun : replayQueries p r g u called qs = .ok (g', visited, result)) :
    ∃ h', replayQueries p r h u called qs = .ok (h', visited, result) ∧ SameLayout h h' := by
  -- Each query finds what the one before has left of `h`, which still extends all of `g'`.
  rw [replayQueries_ok_iff] at hrun
  simp only [replayQueries_ok_iff]
  induction hrun generalizing h with
  | done => exact ⟨h, .done .., .refl h⟩
  | rejected hobserve => exact ⟨h, .rejected (observe_error_again hext.base hobserve), .refl h⟩
  | aborted hobserve haborted =>
    obtain ⟨h₁, hobserve', hsame⟩ := hext.observe_again hobserve
    exact ⟨h₁, .aborted hobserve' haborted, hsame⟩
  | went hobserve hopen hrest ih =>
    have hrest := extends_replayQueries (replayQueries_ok_iff.mpr hrest)
    obtain ⟨h₁, hobserve', hsame⟩ := (hrest.trans hext).observe_again hobserve
    obtain ⟨h₂, hrest', hsame'⟩ := ih (hext.trans hsame.extends)
    exact ⟨h₂, .went hobserve' hopen hrest', hsame.trans hsame'⟩

/-- A trace that was recorded is recorded again with the same result, in whatever has become of the
graph, and without a change of its vertices and edges. -/
theorem Extends.replay_again {t : Trace} {result : Except Error (List Nat)} (hext : Extends g' h)
    (hrun : g.replay t p r = .ok (g', result)) :
    ∃ h', h.replay t p r = .ok (h', result) ∧ SameLayout h h' := by
  rw [replay] at hrun ⊢
  obtain ⟨s, hs, hrun⟩ := Outcome.bind_ok hrun
  obtain ⟨⟨g₁, visited, stop⟩, hqueries, hrun⟩ := Outcome.bind_ok hrun
  have hstart := extends_replayQueries hqueries
  have hsentinels : ∀ {h : Graph R}, Extends g₁ h → h.requireSentinels = .ok s := fun hext =>
    requireSentinels_ok_iff.mpr
      ((hstart.trans hext).sentinels.trans (requireSentinels_ok_iff.mp hs))
  rcases stop with e | _ | _
  · cases hrun
    obtain ⟨h', hqueries', hsame⟩ := hext.replayQueries_again hqueries
    rw [Outcome.bind_of_ok (hsentinels hext), Outcome.bind_of_ok hqueries']
    exact ⟨h', rfl, hsame⟩
  · cases hrun
    -- The step to the end is one that the first recording has left an edge for.
    have hmem := mem_ends_link g₁ ((s.start :: visited).getLast (List.cons_ne_nil _ _))
      (if t.aborted then s.abort else s.commit)
    have hext₁ := (extends_link g₁ _ _).trans ((sameLayout_recordTxn _).extends.trans hext)
    obtain ⟨h', hqueries', hsame⟩ := hext₁.replayQueries_again hqueries
    have hlinked := hsame.trans (sameLayout_link (hsame.ends ▸ hext.ends.subset hmem))
    rw [Outcome.bind_of_ok (hsentinels hext₁), Outcome.bind_of_ok hqueries']
    exact ⟨_, rfl, hlinked.trans (sameLayout_recordTxn _)⟩
  · cases hrun
    have hext₁ := (sameLayout_recordTxn g₁).extends.trans hext
    obtain ⟨h', hqueries', hsame⟩ := hext₁.replayQueries_again hqueries
    rw [Outcome.bind_of_ok (hsentinels hext₁), Outcome.bind_of_ok hqueries']
    exact ⟨_, rfl, hsame.trans (sameLayout_recordTxn h')⟩

end Again

/-! ### Graphs that operations lead to -/

variable [Scalar R]

/-- Operations lead from one graph to another. -/
def Evolves (g g' : Graph R) : Prop :=
  Relation.ReflTransGen (fun g g' => ∃ e : Edit, e.run g = .ok g') g g'

/-- The graphs that operations lead to from fresh graphs and from those read from an archive. What
holds of all of them holds at any time of the life of a graph. -/
inductive Reached : Graph R → Prop
  | fresh (procedure : ProcedureId) (base partitions : Nat) :
    Reached (fresh procedure base partitions)
  | loaded {g : Graph R} {r : GraphRecord} {c : Catalog} : r.load c = .ok (.ok g) → Reached g
  | edited {g g' : Graph R} {e : Edit} : Reached g → e.run g = .ok g' → Reached g'

/-- Every graph that operations lead to is tidy, by induction on the operations. -/
theorem Reached.tidy (h : Reached g) : ∃ s, g.Tidy s := by
  induction h with
  | fresh procedure base partitions => exact ⟨_, tidy_fresh procedure base partitions⟩
  | loaded hload => exact tidy_load hload
  | edited _ hrun ih =>
    obtain ⟨s, htidy⟩ := ih
    exact ⟨s, Edit.tidy htidy hrun⟩

/-- A tidy graph stays tidy and is only extended, by induction on the operations that lead on from
it. -/
theorem Tidy.evolves (h : g.Tidy s) (hevolves : g.Evolves g') : g'.Tidy s ∧ Extends g g' := by
  induction hevolves with
  | refl => exact ⟨h, .refl g⟩
  | tail _ hstep ih =>
    obtain ⟨e, hrun⟩ := hstep
    exact ⟨Edit.tidy ih.1 hrun, ih.2.trans (Edit.extends ih.1.initialized hrun)⟩

end Graph

end TxnPath
