import TxnPath.Proofs.Forecast.Alongside
import TxnPath.Proofs.Graph.Tracked
import TxnPath.Proofs.Walk.Strides

/-!
# `TxnPath.Proofs.Forecast.Journal`: what a forecast says about its transaction

A forecast is advanced batch by batch. A batch may end as planned, be cut short by an abort, or break
off at a query that cannot be resolved, and between two batches anything may happen to the graphs
that concerns other transactions. `Watched` is one forecast in the midst of all this, with a record of what
each batch that went well was answered.

`Forecast.Accurate` is what a forecast says about its transaction: the path, the counts of touched
partitions, the occurrences of calls, and one estimate for each batch that went well. A query keeps
what of this is about the path (`Forecast.Keeps`, `record_keeps`), a batch adds its estimate, and what others do
leaves it as it is. `Watched.run_accurate` is the result for every run.
-/

set_option autoImplicit false

namespace TxnPath

variable {R : Type}

/-- What a batch that went well came to: where the path stood, what had been touched, and the estimate
that was given for an answer. -/
structure Moment (R : Type) where
  vertex : Nat
  touched : DenseHistogram
  answer : Estimate R

/-- A forecast is right about its transaction in a graph, given what its batches came to. -/
structure Forecast.Accurate (x : Forecast R) (g : Graph R) (moments : List (Moment R)) : Prop where
  /-- The path starts at START. -/
  starts : ∃ v, x.path.head? = some v ∧ g.kind? v = some .start
  /-- Its steps are along edges. -/
  joined : x.path.IsChain fun u v => (u, v) ∈ g.ends
  /-- No vertex occurs on it twice. -/
  nodup : x.path.Nodup
  /-- If it has ended, then at ABORT. -/
  ended : ∀ (i : Nat) v, x.path[i]? = some v → g.isTerminal v = true →
    g.kind? v = some .abort ∧ i + 1 = x.path.length
  /-- A partition is counted once for every vertex on the path that touches it. -/
  touched : ∀ p, x.touched.getD p 0 =
    x.path.countP fun v => g.vertices[v]?.any fun y => y.touches p
  /-- The calls of a statement are its first, its second, and so on. -/
  inTurn : Graph.InTurn (g.callsAlong x.path)
  /-- There is one estimate for every batch that went well, and it was the answer. -/
  estimates : x.estimates = moments.map Moment.answer
  /-- Each estimate bears the number of its batch, and tells where the path stood and what had been
  touched. -/
  labelled : ∀ (i : Nat) m, moments[i]? = some m →
    m.answer.point = some (.afterBatch i) ∧ m.answer.vertex = some m.vertex
      ∧ m.answer.touched = m.touched

/-! ### Queries -/

namespace Forecast

variable {g g' : Graph R} {x x' : Forecast R} {s : Sentinels}

/-- What queries keep: the path is tracked, and calls and touches are those of its vertices. It is
carried from query to query, whether their batch goes well or not. -/
structure Keeps (x : Forecast R) (g : Graph R) (s : Sentinels) : Prop where
  /-- The path is one of the graph, and not ended unless at ABORT. -/
  tracked : g.Tracked s x.path
  /-- The statements noted are those of the calls on the path, in order. -/
  called : (g.callsAlong x.path).map Call.statement = x.called
  /-- No count is negative but the mark of a slot that was never used. -/
  countable : x.touched.Countable
  /-- A partition has been counted once for every call on the path that touches it. -/
  touched : ∀ p, x.touched.getD p 0 = (g.callsAlong x.path).countP fun c => p ∈ c.partitions

/-- What else happens to the graph does not matter. -/
theorem Keeps.extends (h : x.Keeps g s) (hext : g.Extends g') (hinit : g'.Initialized s) :
    x.Keeps g' s where
  tracked := h.tracked.extends hext hinit
  called := hext.callsAlong h.tracked.inside ▸ h.called
  countable := h.countable
  touched := hext.callsAlong h.tracked.inside ▸ h.touched

/-- A call touches each of its partitions once. -/
theorem count_partitions (c : Call) (p : Nat) :
    c.partitions.toList.count p = if p ∈ c.partitions then 1 else 0 := by
  have hnodup : c.partitions.toList.Nodup := c.partitions.ascending.imp Nat.ne_of_lt
  rw [hnodup.count]
  rfl

/-- A vertex touches what its call touches. -/
theorem countP_touches (g : Graph R) (π : List Nat) (p : Nat) :
    (π.countP fun v => g.vertices[v]?.any fun y => y.touches p)
      = (g.callsAlong π).countP fun c => p ∈ c.partitions := by
  rw [Graph.callsAlong, List.countP_filterMap]
  refine List.countP_congr fun v _ => ?_
  rw [Graph.callAt?, Graph.kind?]
  cases g.vertices[v]? with
  | none => rfl
  | some y =>
    rw [Option.any_some, Vertex.touches, Option.map_some, Option.bind_some]
    cases y.kind with
    | query c => simp [VertexKind.call?]
    | start | commit | abort => simp [VertexKind.call?]

/-- A forecast that keeps to its path, and has an estimate for each batch, is accurate. What is left
to prove is that ABORT is only found at the end of the path; the rest is said of it already. -/
theorem Keeps.accurate {moments : List (Moment R)} (h : x.Keeps g s)
    (hestimates : x.estimates = moments.map Moment.answer)
    (hlabelled : ∀ (i : Nat) m, moments[i]? = some m →
      m.answer.point = some (.afterBatch i) ∧ m.answer.vertex = some m.vertex
        ∧ m.answer.touched = m.touched) : x.Accurate g moments where
  starts := ⟨s.start, h.tracked.starts, h.tracked.initialized.start⟩
  joined := h.tracked.joined
  nodup := h.tracked.nodup
  ended i v hv hterminal := by
    -- A vertex at which paths end can only be the end of the path.
    obtain ⟨hi, rfl⟩ := List.getElem?_eq_some_iff.mp hv
    by_cases hlast : i + 1 = x.path.length
    · have hend : x.path.getLast? = some x.path[i] := by
        rw [List.getLast?_eq_getElem?, ← hlast, Nat.add_sub_cancel, hv]
      rw [h.tracked.ended _ hend hterminal]
      exact ⟨h.tracked.initialized.abort, hlast⟩
    · -- Only the last vertex of a path can be one at which paths end.
      have hlt : i < x.path.dropLast.length := by
        rw [List.length_dropLast]
        omega
      have hmem := List.getElem_mem hlt
      rw [List.getElem_dropLast] at hmem
      rw [h.tracked.inner _ hmem] at hterminal
      cases hterminal
  touched p := (h.touched p).trans (countP_touches g x.path p).symm
  inTurn := h.tracked.inTurn
  estimates := hestimates
  labelled := hlabelled

/-- A query that is recorded is kept track of. The path gets its vertex, the list of calls gets its
statement, and the counts get the partitions of the call that was recorded. -/
theorem Keeps.observe [Zero R] {q : Query} {p : Procedure} {r : Router}
    {called : List StatementId} {step : Step} {touched : DenseHistogram} (h : x.Keeps g s)
    (hinner : g.isTerminal x.current = false)
    (hrun : g.observe x.current q p r x.called = .ok (.ok (g', step, called)))
    (htouched : (g'.touchedAt step.vertex).foldlM (fun h k => h.add? k 1) x.touched = .ok touched) :
    (x.passed step called touched).Keeps g' s
      ∧ (step.abort = none → g'.isTerminal step.vertex = false) := by
  obtain ⟨_, htracked, hopen, c, hcall, hcalled, hcalls⟩ :=
    h.tracked.observe x.getLast?_path hinner h.called hrun
  obtain ⟨hcountable, hcounts⟩ := DenseHistogram.getD_foldlM_add? h.countable htouched
  -- What is counted are the partitions of the call that was recorded.
  have htouches : g'.touchedAt step.vertex = c.partitions.toList := by
    obtain ⟨y, hy, hkind⟩ := Option.map_eq_some_iff.mp (Graph.callAt?_eq_some.mp hcall)
    rw [Graph.touchedAt, hy, Option.bind_some, hkind]
    rfl
  have hpath : (x.passed step called touched).path = x.path ++ step.path := rfl
  refine ⟨⟨hpath ▸ htracked, ?_, hcountable, fun p => ?_⟩, hopen⟩
  · rw [hpath, hcalls, List.map_append, h.called, List.map_singleton]
    exact hcalled.symm
  · rw [hpath, hcalls, List.countP_append, List.countP_singleton]
    show touched.getD p 0 = _
    rw [hcounts, h.touched, htouches, count_partitions]
    simp only [decide_eq_true_eq]

end Forecast

namespace Forecaster

variable [Scalar R] {f f' : Forecaster R} {g g' : Graph R} {x x' : Forecast R} {s : Sentinels}

/-- A batch is kept track of as far as its queries are recorded, and makes no estimate yet. It needs
to start at a vertex that a query can follow, unless it has no queries. -/
theorem record_keeps {p : Procedure} {r : Router} {qs : List Query} {result : Except Error Unit}
    (h : x.Keeps g s) (hopen : g.isTerminal x.current = false ∨ qs = [])
    (hrun : record p r g x qs = .ok (g', x', result)) :
    x'.Keeps g' s ∧ x'.estimates = x.estimates := by
  induction qs generalizing g x with
  | nil =>
    cases hrun
    exact ⟨h, rfl⟩
  | cons q qs ih =>
    have hinner := hopen.resolve_right (List.cons_ne_nil q qs)
    rw [record] at hrun
    split at hrun
    · cases hrun
    · cases hrun
      exact ⟨h, rfl⟩
    case h_3 g₁ step called hobserve =>
    dsimp only at hrun
    split at hrun
    · cases hrun
    case h_2 touched htouched =>
    obtain ⟨hstep, hcall⟩ := h.observe hinner hobserve htouched
    split at hrun
    · cases hrun
      exact ⟨hstep, rfl⟩
    case isFalse hnone =>
      -- The batch goes on, from the vertex of the query.
      have hnone : step.abort = none := Option.not_isSome_iff_eq_none.mp hnone
      have hcurrent : (x.passed step called touched).current = step.vertex := by
        simp [Forecast.passed, Forecast.current, Step.path, hnone]
      exact ih (x := x.passed step called touched) hstep (.inl (hcurrent ▸ hcall hnone)) hrun

/-- A batch that fails makes no estimate. One that goes well makes one, from where it ended. In both
cases what the walk has predicted does not matter here, only where it started. -/
theorem endBatch_cases {w : Walker R} {idle : Estimate R} {p : Procedure} {stop : Except Error Unit}
    {result : Except Error (Estimate R)} (hrun : f.endBatch w idle p g x stop = .ok (f', x', result)) :
    (∃ e, result = .error e) ∧ x' = x
      ∨ ∃ e, result = .ok e ∧ x' = { x with estimates := x.estimates ++ [e] }
        ∧ e.point = some (.afterBatch x.estimates.length) ∧ e.vertex = some x.current
        ∧ e.touched = x.touched := by
  cases stop with
  | error e =>
    obtain ⟨f₁, _, hrun⟩ := Outcome.bind_ok hrun
    obtain ⟨f₂, _, hrun⟩ := Outcome.bind_ok hrun
    cases hrun
    exact .inl ⟨⟨e, rfl⟩, rfl⟩
  | ok _ =>
    obtain ⟨w', hwalk, hrun⟩ := Outcome.bind_ok hrun
    obtain ⟨f₁, _, hrun⟩ := Outcome.bind_ok hrun
    cases hrun
    exact .inr ⟨_, rfl, rfl, rfl, Walker.traverse_vertex hwalk, rfl⟩

/-- A batch keeps track of its transaction, and makes an estimate if it goes well. A batch that
fails may still have led the path on, by the queries before the one that failed, without an estimate
for it. -/
theorem advance_keeps {qs : List Query} {result : Except Error (Estimate R)}
    (hget : f.store.get? x.key = some g) (h : x.Keeps g s)
    (hrun : f.advance x qs = .ok (f', x', result)) :
    ∃ g', f'.store.get? x'.key = some g' ∧ x'.Keeps g' s
      ∧ ((∃ e, result = .error e) ∧ x'.estimates = x.estimates
        ∨ ∃ e, result = .ok e ∧ x'.estimates = x.estimates ++ [e]
          ∧ e.point = some (.afterBatch x.estimates.length) ∧ e.vertex = some x'.current
          ∧ e.touched = x'.touched) := by
  rcases advance_cases hrun with
    ⟨rfl, rfl, hfailed⟩ | ⟨p, f₁, w, idle, g', y, stop, hborrow, hend, hrecord⟩
  · exact ⟨g, hget, h, .inl ⟨hfailed, rfl⟩⟩
  obtain ⟨walkers, estimates, rfl⟩ := borrow_ok hborrow
  have hgraph : graph { f with walkers := walkers, estimates := estimates } x.key = g :=
    graph_eq hget
  rw [hgraph] at hrecord
  -- What the batch recorded, whole or in part, keeps all that is about the path.
  have hbatch : y.Keeps g' s ∧ y.key = x.key ∧ y.estimates = x.estimates := by
    rcases hrecord with ⟨rfl, rfl⟩ | ⟨hopen, hrecord⟩
    · exact ⟨h, rfl, rfl⟩
    · obtain ⟨hkeeps, hestimates⟩ := record_keeps h hopen hrecord
      exact ⟨hkeeps, (evolves_record hrecord).2, hestimates⟩
  obtain ⟨hy, hkey, hestimates⟩ := hbatch
  obtain ⟨hstore, _, hsame⟩ := endBatch_ok hend
  have hget' : f'.store.get? x'.key = some g' := by
    rw [hstore, hsame]
    exact GraphStore.get?_set_self ..
  rcases endBatch_cases hend with ⟨hfailed, rfl⟩ | ⟨e, hok, rfl, hpoint, hvertex, htouched⟩
  · exact ⟨g', hget', hy, .inl ⟨hfailed, hestimates⟩⟩
  · refine ⟨g', hget', ⟨hy.tracked, hy.called, hy.countable, hy.touched⟩, .inr ⟨e, hok, ?_⟩⟩
    rw [← hestimates]
    exact ⟨rfl, hpoint, hvertex, htouched⟩

/-- A forecast that starts has called nothing, touched nothing and estimated nothing yet. -/
theorem start_blank {txn : TxnId} {procedure : ProcedureId} {args : List Value}
    (hrun : f.start txn procedure args = .ok (f', .ok x)) :
    x.called = [] ∧ x.touched = .empty f.catalog.partitions ∧ x.estimates = [] := by
  rw [start] at hrun
  split at hrun
  · cases hrun
  · split at hrun
    · cases hrun
    · obtain ⟨⟨f₁, w, idle⟩, hborrow, hrun⟩ := Outcome.bind_ok hrun
      obtain ⟨s, _, hrun⟩ := Outcome.bind_ok hrun
      obtain ⟨w', _, hrun⟩ := Outcome.bind_ok hrun
      obtain ⟨f₂, hreturn, hrun⟩ := Outcome.bind_ok hrun
      cases hrun
      obtain ⟨_, _, rfl⟩ := borrow_ok hborrow
      obtain ⟨_, _, rfl⟩ := Outcome.map_ok hreturn
      exact ⟨rfl, rfl, rfl⟩

/-- A forecast that starts keeps track of its transaction, and has no estimate yet. The first
estimate, of the whole transaction, is kept apart from those of the batches. -/
theorem start_keeps {txn : TxnId} {procedure : ProcedureId} {args : List Value}
    (hreached : f.store.Reached) (hrun : f.start txn procedure args = .ok (f', .ok x)) :
    f'.store.Reached ∧ x.estimates = []
      ∧ ∃ g s, f'.store.get? x.key = some g ∧ x.Keeps g s := by
  have hevolves := (evolves_start hrun).reached hreached
  rcases start_ok hrun with ⟨⟨e, he⟩, _⟩ | ⟨y, s, hy, hstore, hplaced, hpath⟩
  · cases he
  cases hy
  have hget : f'.store.get? x.key = some (f.graph x.key) :=
    hstore ▸ Traffic.get?_getOrCreate_self ..
  obtain ⟨t, htidy⟩ := (hreached.getOrCreate x.key f.catalog.partitions).tidy
  obtain rfl := Option.some.inj (hplaced.symm.trans htidy.initialized.placed)
  have hinit : (f.graph x.key).Initialized s := htidy.initialized
  obtain ⟨hcalled, htouched, hestimates⟩ := start_blank hrun
  -- A path that stands at START has made no call.
  have hcalls : (f.graph x.key).callsAlong [s.start] = [] := by
    rw [Graph.callsAlong, List.filterMap_cons_none, List.filterMap_nil]
    rw [Graph.callAt?, hinit.start]
    rfl
  refine ⟨hevolves, hestimates, _, s, hget, ⟨?_, ?_, ?_, fun p => ?_⟩⟩
  · rw [hpath]
    exact hinit.tracked
  · rw [hpath, hcalls, hcalled]
    rfl
  · rw [htouched]
    exact DenseHistogram.countable_empty _
  · rw [hpath, hcalls, htouched, DenseHistogram.getD_empty]
    rfl

end Forecaster

/-! ### One forecast among others -/

/-- One forecast, the graphs that it shares with others, and what its batches came to. The others
appear in it by what they do to the graphs only. -/
structure Watched (R : Type) where
  store : GraphStore R
  forecast : Forecast R
  moments : List (Moment R)

/-- What may happen next: a forecaster advances the forecast, or something is done that does not
concern it. The graphs are found as they are, whichever forecaster it is. -/
inductive Turn (R : Type) where
  | advance (f : Forecaster R) (queries : List Query)
  | other (active : List (Forecast R)) (e : Event R)

namespace Watched

variable [Scalar R] {w w' : Watched R} {g : Graph R} {s : Sentinels}

/-- What a turn does. A batch is noted if it went well. -/
def step (w : Watched R) : Turn R → Except Fault (Watched R)
  | .advance f queries =>
    match { f with store := w.store }.advance w.forecast queries with
    | .error e => .error e
    | .ok (f, x, .error _) => .ok { w with store := f.store, forecast := x }
    | .ok (f, x, .ok e) => .ok ⟨f.store, x, w.moments ++ [⟨x.current, x.touched, e⟩]⟩
  | .other active e =>
    (Traffic.step ⟨w.store, active, []⟩ e).map fun traffic => { w with store := traffic.store }

/-- What a sequence of turns does. -/
def run (w : Watched R) (turns : List (Turn R)) : Except Fault (Watched R) := turns.foldlM step w

/-- The graphs are such that operations lead to, and the forecast keeps track of its transaction in one of
them, with an estimate for each batch that went well. -/
structure Sound (w : Watched R) (s : Sentinels) : Prop where
  reached : w.store.Reached
  keeps : ∃ g, w.store.get? w.forecast.key = some g ∧ w.forecast.Keeps g s
  estimates : w.forecast.estimates = w.moments.map Moment.answer
  labelled : ∀ (i : Nat) m, w.moments[i]? = some m →
    m.answer.point = some (.afterBatch i) ∧ m.answer.vertex = some m.vertex
      ∧ m.answer.touched = m.touched

/-- Whether it is the turn of the forecast that is watched or of another transaction, what is
recorded of it stays true. -/
theorem Sound.step {turn : Turn R} (h : w.Sound s) (hstep : w.step turn = .ok w') : w'.Sound s := by
  obtain ⟨g, hget, hkeeps⟩ := h.keeps
  cases turn with
  | advance f queries =>
    rw [Watched.step] at hstep
    split at hstep
    · cases hstep
    case h_2 f' x e hadvance =>
      cases hstep
      obtain ⟨g', hget', hkeeps', ⟨_, hestimates⟩ | ⟨_, hok, _⟩⟩ :=
        Forecaster.advance_keeps hget hkeeps hadvance
      · exact ⟨(Forecaster.evolves_advance hadvance).reached h.reached, ⟨g', hget', hkeeps'⟩,
          hestimates.trans h.estimates, h.labelled⟩
      · cases hok
    case h_3 f' x e hadvance =>
      cases hstep
      obtain ⟨g', hget', hkeeps', ⟨⟨_, hfail⟩, _⟩ | ⟨_, hok, hestimates, hpoint, hlast⟩⟩ :=
        Forecaster.advance_keeps hget hkeeps hadvance
      · cases hfail
      cases hok
      refine ⟨(Forecaster.evolves_advance hadvance).reached h.reached, ⟨g', hget', hkeeps'⟩, ?_,
        fun i m hm => ?_⟩
      · rw [hestimates, h.estimates, List.map_append]
        rfl
      · rw [List.getElem?_append] at hm
        split at hm
        · exact h.labelled i m hm
        case isFalse hlt =>
          -- The new moment comes right after those that there were.
          obtain ⟨hi, rfl⟩ := List.getElem?_eq_some_iff.mp hm
          have hlast : i = w.moments.length := by
            rw [List.length_singleton] at hi
            omega
          subst hlast
          rw [h.estimates, List.length_map] at hpoint
          simpa using ⟨hpoint, hlast⟩
  | other active e =>
    obtain ⟨traffic, htraffic, rfl⟩ := Outcome.map_ok hstep
    have hevolves := Traffic.evolves_step htraffic
    obtain ⟨g', hget', hgraph⟩ := hevolves.graph hget
    obtain ⟨t, htidy⟩ := (h.reached _ _ hget).tidy
    obtain rfl := Option.some.inj (htidy.initialized.placed.symm.trans
      hkeeps.tracked.initialized.placed)
    obtain ⟨htidy', hextends⟩ := htidy.evolves hgraph
    exact ⟨hevolves.reached h.reached, ⟨g', hget', hkeeps.extends hextends htidy'.initialized⟩,
      h.estimates, h.labelled⟩

/-- So it does over all turns, by induction. -/
theorem Sound.run {turns : List (Turn R)} (h : w.Sound s) (hrun : w.run turns = .ok w') :
    w'.Sound s := by
  induction turns generalizing w with
  | nil =>
    cases hrun
    exact h
  | cons turn turns ih =>
    obtain ⟨w₁, hstep, hrest⟩ := Outcome.foldlM_cons_ok hrun
    exact ih (h.step hstep) hrest

/-- What a forecast says about its transaction is right, all along. This holds of every forecast that
starts among graphs that operations lead to, whatever batches it is advanced by, whether they go well
or not, and whatever happens between them that concerns other transactions. -/
theorem run_accurate {f f' : Forecaster R} {txn : TxnId} {procedure : ProcedureId} {args : List Value}
    {x : Forecast R} {turns : List (Turn R)} (hreached : f.store.Reached)
    (hstart : f.start txn procedure args = .ok (f', .ok x))
    (hrun : run ⟨f'.store, x, []⟩ turns = .ok w) :
    ∃ g, w.store.get? w.forecast.key = some g ∧ w.forecast.Accurate g w.moments := by
  obtain ⟨hreached', hestimates, g, s, hget, hkeeps⟩ := Forecaster.start_keeps hreached hstart
  have hsound : Sound ⟨f'.store, x, []⟩ s := ⟨hreached', ⟨g, hget, hkeeps⟩, hestimates, nofun⟩
  obtain ⟨_, ⟨g', hget', hkeeps'⟩, hestimates', hlabelled⟩ := hsound.run hrun
  exact ⟨g', hget', hkeeps'.accurate hestimates' hlabelled⟩

/-- A teller's transaction reads and writes. -/
def telling : Procedure :=
  ⟨0, "tell", [], [⟨0, "read", .select, [], []⟩, ⟨1, "write", .update, [], []⟩], false, true, none⟩

/-- All of it is routed to the one partition that there is. -/
def teller : Forecaster Rat :=
  .new ⟨1, [], [telling]⟩ ⟨1, fun _ _ => .ok 0, fun _ _ _ _ => .ok (.singleton 0)⟩ ∅ .default ∅

/-- A query without parameters. -/
def tell (statement : StatementId) (aborted : Bool) : Query := ⟨statement, [], 0, aborted, none⟩

/-- The first batch reads. While a trace is replayed and another transaction starts, the second batch
reads again and breaks off at an unknown statement. The graph is recomputed, and the third batch aborts in its
write. The fourth comes too late, and the last one is empty. -/
def tellings : List (Turn Rat) :=
  [.advance teller [tell 0 false],
    .other [] (.replay ⟨0, 0⟩ 1 ⟨2, 0, [], [tell 0 false, tell 1 false], false⟩ telling teller.router),
    .other [] (.start teller 3 0 []), .advance teller [tell 0 false, tell 9 false],
    .other [] (.recompute ⟨0, 0⟩), .advance teller [tell 1 true, tell 0 false],
    .advance teller [tell 0 false], .advance teller []]

/-- Three of the five batches went well: one after its read, one after its abort, and the empty one. -/
theorem run_accurate_tellings :
    ∃ f' x w g, teller.start 1 0 [] = .ok (f', .ok x)
      ∧ run ⟨f'.store, x, []⟩ tellings = .ok w
      ∧ w.forecast.path = [0, 3, 5, 4, 2] ∧ w.moments.map Moment.vertex = [3, 2, 2]
      ∧ w.store.get? w.forecast.key = some g ∧ w.forecast.Accurate g w.moments := by
  -- Start and batches are evaluated in one go, and taken apart afterwards.
  have hstarted : (teller.start 1 0 []).toOption.bind (fun out => out.2.toOption.bind fun x =>
      (run ⟨out.1.store, x, []⟩ tellings).toOption.map fun w =>
        (w.forecast.path, w.moments.map Moment.vertex)) = some ([0, 3, 5, 4, 2], [3, 2, 2]) := by
    decide +kernel
  obtain ⟨⟨f', started⟩, hstart, h⟩ := Option.bind_eq_some_iff.mp hstarted
  obtain ⟨x, hx, h⟩ := Option.bind_eq_some_iff.mp h
  obtain ⟨w, hrun, h⟩ := Option.map_eq_some_iff.mp h
  obtain ⟨hpath, hvertices⟩ := Prod.mk.inj h
  obtain rfl := Outcome.of_toOption hx
  have hstart := Outcome.of_toOption hstart
  have hrun := Outcome.of_toOption hrun
  obtain ⟨g, hget, haccurate⟩ := run_accurate GraphStore.reached_empty hstart hrun
  exact ⟨f', x, w, g, hstart, hrun, hpath, hvertices, hget, haccurate⟩

end Watched

end TxnPath
