import TxnPath.Proofs.Forecast.Filled
import TxnPath.Proofs.Forecast.Pools
import TxnPath.Proofs.Forecast.Traffic

/-!
# `TxnPath.Proofs.Forecast.Online`: batches record what a replay records

A forecast that follows a transaction records its queries batch by batch, keeping where the path
stands and which statements were called from one batch to the next; a replay records them in one
go. `Recording` says that a forecast has recorded what a replay of the same queries would have
recorded, and stands where the replay would go on. Recordings can be put together
(`Recording.trans`), so that a query at a time, a batch at a time and all batches come to the
same graph (`advanceAll_spec`).

While it goes, the graph and the counters keep room for the queries that are left
(`Forecast.Underway`), so that none of this fails.
-/

set_option autoImplicit false

namespace TxnPath

variable {R : Type}

namespace GraphStore

variable {s : GraphStore R} {k : GraphKey} {g : Graph R}

/-- The graph that was put in last is the one that is kept. -/
theorem set_set (s : GraphStore R) (k : GraphKey) (g g' : Graph R) :
    (s.set k g).set k g' = s.set k g' := by
  refine ext_get? fun k' => ?_
  by_cases hk : k = k'
  · rw [← hk, get?_set_self, get?_set_self]
  · rw [get?_set_ne _ _ hk, get?_set_ne _ _ hk, get?_set_ne _ _ hk]

/-- Putting a graph back where it was changes nothing. -/
theorem set_get (h : s.get? k = some g) : s.set k g = s := by
  refine ext_get? fun k' => ?_
  by_cases hk : k = k'
  · rw [← hk, get?_set_self, h]
  · rw [get?_set_ne _ _ hk]

end GraphStore

/-- A transaction that is under way in a graph for `n` partitions, which has room for `left` more
queries. -/
structure Forecast.Underway (x : Forecast R) (g : Graph R) (n : Nat) (rest : List (List Nat))
    (m left : Nat) : Prop where
  recorded : g.Recorded ⟨0, 1, 2⟩ (x.path :: rest) m
  confined : g.Confined x.key n
  room : g.vertices.size + left ≤ halfWordLimit
  touched : ∃ rounds, rounds + left ≤ halfWordLimit ∧ x.touched.Rounds n rounds []

/-- The partitions that the call of a vertex touches. -/
def Graph.touchedAt (g : Graph R) (v : Nat) : List Nat :=
  match (g.vertices[v]?).bind fun x => x.kind.call? with
  | some c => c.partitions.toList
  | none => []

/-- A call touches each of its partitions once. -/
theorem Graph.nodup_touchedAt (g : Graph R) (v : Nat) : (g.touchedAt v).Nodup := by
  rw [touchedAt]
  split
  case h_1 c _ => exact c.partitions.ascending.imp Nat.ne_of_lt
  case h_2 => exact List.nodup_nil

/-- A vertex in range touches partitions of the graph. -/
theorem Graph.InRange.touchedAt {g : Graph R} {v : Nat} (h : g.InRange v) :
    ∀ p ∈ g.touchedAt v, p < g.partitions := by
  rw [Graph.touchedAt]
  split
  case h_2 => exact nofun
  case h_1 c hc =>
    obtain ⟨x, hx, hcall⟩ := Option.bind_eq_some_iff.mp hc
    refine h c ?_
    rw [kind?, hx, Option.map_some]
    cases hkind : x.kind with
    | query c' => rw [hkind] at hcall; cases hcall; rfl
    | start | commit | abort => rw [hkind] at hcall; cases hcall

namespace Forecast

variable {g g' g'' : Graph R} {x x' x'' : Forecast R} {rest : List (List Nat)}
  {m n left left' : Nat} {p : Procedure} {r : Router} {qs more : List Query} {q : Query}
  {visited visited' : List Nat} {result : Except Error Bool} {step : Step}
  {called : List StatementId}

/-- Room for some queries is room for fewer. -/
theorem Underway.mono (h : x.Underway g n rest m left) (hle : left' ≤ left) :
    x.Underway g n rest m left' where
  recorded := h.recorded
  confined := h.confined
  room := Nat.le_trans (Nat.add_le_add_left hle _) h.room
  touched := by
    obtain ⟨rounds, hrounds, hcount⟩ := h.touched
    exact ⟨rounds, Nat.le_trans (Nat.add_le_add_left hle _) hrounds, hcount⟩

variable [Zero R]

/-! ### One query -/

/-- The forecast after a query. -/
def passed (x : Forecast R) (step : Step) (called : List StatementId) (touched : DenseHistogram) :
    Forecast R :=
  { x with visited := x.visited ++ step.path, called := called, touched := touched }

/-- A query that is recorded takes the transaction on, and its touches can be counted. The counters
overflow at a bound that is far off here, since a transaction touches a partition once per query at
most and has fewer queries than the graph may have vertices. -/
theorem Underway.observe (h : x.Underway g n rest m (left + 1)) (hn : n < halfWordLimit)
    (hr : r.Within n) (hinner : g.isTerminal x.current = false)
    (hrun : g.observe x.current q p r x.called = .ok (.ok (g', step, called))) :
    ∃ touched, (g'.touchedAt step.vertex).foldlM (fun h k => h.add? k 1) x.touched = .ok touched
      ∧ (x.passed step called touched).Underway g' n rest m left
      ∧ g'.Stands ⟨0, 1, 2⟩ q.aborted step := by
  obtain ⟨hrecorded, hstands⟩ := h.recorded.observe x.getLast?_path hinner hrun
  have hconfined := (Graph.keptBy_confined hr).observe hrun h.confined
  obtain ⟨c, _, hadvance, _⟩ := Graph.observe_ok hrun
  have hsize : g'.vertices.size ≤ g.vertices.size + 1 := by
    rw [(Graph.sameKinds_advance hadvance).size]
    exact Graph.size_ensureCall_le g c
  have hroom := h.room
  obtain ⟨rounds, hrounds, hcount⟩ := h.touched
  have hrange : ∀ k ∈ g'.touchedAt step.vertex, k < n := fun k hk =>
    hconfined.partitions ▸ (hconfined.inRange step.vertex).touchedAt k hk
  have hnodup := g'.nodup_touchedAt step.vertex
  -- The counters have room for one round more, since rounds are as many as queries, and the graph
  -- has a vertex less than its limit for each that is left.
  have hword : (rounds + 1) * n < wordLimit := by
    have hle := Nat.mul_le_mul (show rounds + 1 ≤ halfWordLimit by omega)
      (Nat.le_sub_one_of_lt hn)
    exact Nat.lt_of_le_of_lt hle (by decide)
  have hhalf : rounds + 1 < wordLimit / 2 :=
    Nat.lt_of_le_of_lt (show rounds + 1 ≤ halfWordLimit by omega) (by decide)
  obtain ⟨touched, hadd, hdone⟩ := (hcount.next hnodup hrange).count hhalf hword hnodup hrange
  refine ⟨touched, hadd, ⟨hrecorded, hconfined, by omega, rounds + 1, by omega, hdone⟩, hstands⟩

/-! ### What a replay would have recorded -/

/-- What a replay comes to that has recorded some queries and is to record more: unless one of them
failed or aborted the transaction, it goes on from where the forecast stands. -/
def resume (p : Procedure) (r : Router) (g : Graph R) (x : Forecast R) (visited : List Nat)
    (more : List Query) : Except Error Bool → Except Fault (Graph R × List Nat × Except Error Bool)
  | .ok false =>
    (Graph.replayQueries p r g x.current x.called more).map fun (g, later, result) =>
      (g, visited ++ later, result)
  | result => .ok (g, visited, result)

/-- A forecast has recorded queries as a replay would have done, with a result that tells whether one
of them aborted the transaction, and is under way still. -/
structure Recording (p : Procedure) (r : Router) (n : Nat) (rest : List (List Nat)) (m : Nat)
    (g : Graph R) (x : Forecast R) (qs : List Query) (g' : Graph R) (x' : Forecast R)
    (visited : List Nat) (result : Except Error Bool) (left : Nat) : Prop where
  underway : x'.Underway g' n rest m left
  frame : x' = { x with
    visited := x.visited ++ visited, called := x'.called, touched := x'.touched
    estimates := x'.estimates }
  stands : ∀ aborted, result = .ok aborted →
    if aborted then x'.current = 2 else g'.isTerminal x'.current = false
  queries : ∀ more, Graph.replayQueries p r g x.current x.called (qs ++ more)
    = resume p r g' x' visited more result

/-- Recording queries does not move a forecast to another graph. -/
theorem Recording.key (h : Recording p r n rest m g x qs g' x' visited result left) :
    x'.key = x.key := by
  rw [h.frame]

/-- The path gets longer by what was visited. -/
theorem Recording.path (h : Recording p r n rest m g x qs g' x' visited result left) :
    x'.path = x.path ++ visited := by
  rw [h.frame]
  rfl

/-- There may be room for fewer queries than there is. -/
theorem Recording.mono (h : Recording p r n rest m g x qs g' x' visited result left)
    (hle : left' ≤ left) : Recording p r n rest m g x qs g' x' visited result left' :=
  ⟨h.underway.mono hle, h.frame, h.stands, h.queries⟩

/-- Nothing is recorded of no queries. -/
theorem recording_nil (h : x.Underway g n rest m left) (hinner : g.isTerminal x.current = false) :
    Recording p r n rest m g x [] g x [] (.ok false) left where
  underway := h
  frame := by rw [List.append_nil]
  stands := fun aborted haborted => by
    cases haborted
    exact hinner
  queries := fun more => by
    rw [List.nil_append, resume]
    cases Graph.replayQueries p r g x.current x.called more <;> rfl

/-- A query that cannot be resolved is not recorded. -/
theorem recording_failed (h : x.Underway g n rest m left) {e : Error}
    (hrun : g.observe x.current q p r x.called = .ok (.error e)) :
    Recording p r n rest m g x [q] g x [] (.error e) left where
  underway := h
  frame := by rw [List.append_nil]
  stands := nofun
  queries := fun more => by
    rw [List.singleton_append, Graph.replayQueries, hrun]
    rfl

/-- A query that is recorded is recorded as a replay does it. This is one link of the chain that
`record_spec` puts together: what a replay of this query and more would do is to resume from where
the forecast stands. -/
theorem recording_passed {touched : DenseHistogram}
    (hrun : g.observe x.current q p r x.called = .ok (.ok (g', step, called)))
    (h : (x.passed step called touched).Underway g' n rest m left)
    (hstands : g'.Stands ⟨0, 1, 2⟩ q.aborted step) :
    Recording p r n rest m g x [q] g' (x.passed step called touched) step.path (.ok q.aborted)
      left where
  underway := h
  frame := rfl
  stands := fun aborted haborted => by
    cases haborted
    have habort := hstands.abort
    cases hq : q.aborted with
    | true =>
      rw [hq] at habort
      simp [passed, current, Step.path, habort]
    | false =>
      rw [hq] at habort
      simpa [passed, current, Step.path, habort] using hstands.inner
  -- A replay of this query and more is a replay of the rest from where the forecast stands now.
  queries := fun more => by
    rw [List.singleton_append, Graph.replayQueries, hrun]
    dsimp only
    rw [Step.path, hstands.abort]
    cases hq : q.aborted with
    | true => rfl
    | false =>
      have hcurrent : (x.passed step called touched).current = step.vertex := by
        simp [passed, current, Step.path, hstands.abort, hq]
      rw [resume, hcurrent, show (x.passed step called touched).called = called from rfl]
      cases Graph.replayQueries p r g' step.vertex called more <;> rfl

/-- Recordings can be put together. The first one has to have gone well to its end, as nothing is
recorded behind a query that was rejected or aborted. -/
theorem Recording.trans (h : Recording p r n rest m g x qs g' x' visited (.ok false) left)
    (h' : Recording p r n rest m g' x' more g'' x'' visited' result left') :
    Recording p r n rest m g x (qs ++ more) g'' x'' (visited ++ visited') result left' where
  underway := h'.underway
  frame := by
    rw [h'.frame, h.frame, List.append_assoc]
  stands := h'.stands
  queries := fun later => by
    rw [List.append_assoc, h.queries, resume, h'.queries]
    rcases result with e | _ | _
    · rfl
    · rw [resume, resume]
      cases Graph.replayQueries p r g'' x''.current x''.called later with
      | error f => rfl
      | ok out => simp [Except.map, List.append_assoc]
    · rfl

/-- After a query that failed or aborted the transaction, no more are recorded. -/
theorem Recording.extend (h : Recording p r n rest m g x qs g' x' visited result left)
    (hstop : result ≠ .ok false) (more : List Query) :
    Recording p r n rest m g x (qs ++ more) g' x' visited result left where
  underway := h.underway
  frame := h.frame
  stands := h.stands
  queries := fun later => by
    rw [List.append_assoc, h.queries]
    rcases result with e | _ | _
    · rfl
    · exact absurd rfl hstop
    · rfl

/-- Making estimates records nothing. -/
theorem Recording.setEstimates (h : Recording p r n rest m g x qs g' x' visited result left)
    (estimates : List (Estimate R)) :
    Recording p r n rest m g x qs g' { x' with estimates := estimates } visited result left where
  underway := ⟨h.underway.recorded, h.underway.confined, h.underway.room, h.underway.touched⟩
  frame := by rw [h.frame]
  stands := h.stands
  queries := h.queries

end Forecast

namespace Forecaster

open Forecast (Recording)

variable [Scalar R] {f : Forecaster R} {g : Graph R} {x : Forecast R} {rest : List (List Nat)}
  {m n left : Nat} {p : Procedure} {r : Router}

/-- Recording goes on from the forecast after a query, unless the query aborted the transaction. The
two assumptions are that the query is accepted and that its partitions can be counted. -/
theorem record_cons {g' : Graph R} {q : Query} {qs : List Query} {step : Step}
    {called : List StatementId} {touched : DenseHistogram}
    (hrun : g.observe x.current q p r x.called = .ok (.ok (g', step, called)))
    (htouched : (g'.touchedAt step.vertex).foldlM (fun h k => h.add? k 1) x.touched
      = .ok touched) :
    record p r g x (q :: qs)
      = if step.abort.isSome then .ok (g', x.passed step called touched, .ok ())
        else record p r g' (x.passed step called touched) qs := by
  rw [record, hrun]
  dsimp only
  split
  case h_1 e hfail => cases hfail.symm.trans htouched
  case h_2 touched' hcount =>
    cases hcount.symm.trans htouched
    rfl

/-- Recording queries records what a replay would have recorded. It is by induction on the queries.
A query that cannot be resolved and one that aborts end the batch, and a replay as well. -/
theorem record_spec (hn : n < halfWordLimit) (hr : r.Within n) (qs : List Query)
    (h : x.Underway g n rest m (qs.length + left)) (hinner : g.isTerminal x.current = false) :
    ∃ g' x' visited result, Recording p r n rest m g x qs g' x' visited result left
      ∧ record p r g x qs = .ok (g', x', result.map fun _ => ()) := by
  induction qs generalizing g x with
  | nil =>
    rw [List.length_nil, Nat.zero_add] at h
    exact ⟨g, x, [], .ok false, Forecast.recording_nil h hinner, rfl⟩
  | cons q qs ih =>
    rw [List.length_cons, Nat.add_right_comm] at h
    rcases h.recorded.observe_total x.getLast?_path q p r x.called with
      ⟨e, hrun⟩ | ⟨g', step, called, hrun⟩
    · -- The query cannot be resolved, and neither recording nor a replay looks at the others.
      have hfailed := Forecast.recording_failed (q := q) (h.mono (show left ≤ _ by omega)) hrun
      rw [record, hrun]
      exact ⟨g, x, [], .error e, hfailed.extend (by simp) qs, rfl⟩
    -- The query was recorded, and its partitions were counted.
    obtain ⟨touched, htouched, hunderway, hstands⟩ := h.observe hn hr hinner hrun
    rw [record_cons hrun htouched, hstands.abort]
    cases hq : q.aborted with
    | true =>
      have hpassed := Forecast.recording_passed hrun (hunderway.mono (show left ≤ _ by omega))
        hstands
      rw [hq] at hpassed
      exact ⟨g', _, _, .ok true, hpassed.extend (by simp) qs, rfl⟩
    | false =>
      have hpassed := Forecast.recording_passed hrun hunderway hstands
      rw [hq] at hpassed
      obtain ⟨g'', x', visited, result, hrest, hrecord⟩ := ih hunderway (hpassed.stands false rfl)
      exact ⟨g'', x', _, result, hpassed.trans hrest, hrecord⟩

/-! ### Batch by batch -/

/-- A batch ends well, whatever was recorded: the graph has room for a walk. Nothing that the batch
borrowed is kept, except for the estimate of a batch that went well. -/
theorem endBatch_total (hf : f.Rested) (hn : n < halfWordLimit) {w : Walker R} (hw : w.Rested)
    (idle : Estimate R) (h : x.Underway g n rest m left) (stop : Except Error Unit) :
    ∃ f' result, f.endBatch w idle p g x stop = .ok (f', result)
      ∧ Handled f f' ∧ f'.store = f.store.set x.key g
      ∧ (∃ estimates, result.1 = { x with estimates := estimates })
      ∧ (result.2.map fun _ => ()) = stop := by
  have hstored := hf.setStore (f.store.set x.key g)
  cases stop with
  | error e =>
    obtain ⟨f₁, hestimates, hhandled₁, hstore₁⟩ := hstored.rested.returnEstimates [idle]
    obtain ⟨f₂, hwalker, hhandled₂, hstore₂⟩ := hhandled₁.rested.returnWalker w
    refine ⟨f₂, (x, .error e), ?_, hstored.trans (hhandled₁.trans hhandled₂),
      hstore₂.trans hstore₁, ⟨x.estimates, rfl⟩, rfl⟩
    rw [endBatch]
    exact (Outcome.bind_of_ok hestimates).trans (Outcome.bind_of_ok hwalker)
  -- The walk of the batch succeeds, since the graph is in order and the path stands at a vertex of
  -- it.
  | ok _ =>
    have hsize : g.vertices.size ≤ halfWordLimit := Nat.le_trans (Nat.le_add_right _ _) h.room
    have hcurrent : x.current < g.vertices.size :=
      (h.recorded.path _ List.mem_cons_self).inside _ (List.mem_of_getLast? x.getLast?_path)
    obtain ⟨w', hwalk⟩ := Walker.traverse_ok
      (j := journey { f with store := f.store.set x.key g } g p x.args) h.recorded.initialized hw
      hcurrent hsize (h.confined.partitions ▸ hn) h.confined.inRange
    obtain ⟨f₁, hwalker, hhandled₁, hstore₁⟩ := hstored.rested.returnWalker w'
    let e : Estimate R := { idle.copyFrom w'.estimate with
      point := some (.afterBatch x.estimates.length), touched := x.touched }
    refine ⟨f₁, ({ x with estimates := x.estimates ++ [e] }, .ok e), ?_,
      hstored.trans hhandled₁, hstore₁, ⟨_, rfl⟩, rfl⟩
    rw [endBatch]
    exact (Outcome.bind_of_ok hwalk).trans (Outcome.bind_of_ok hwalker)

omit [Scalar R] in
/-- The graph of a key that is in the store. -/
theorem graph_eq (hget : f.store.get? x.key = some g) : f.graph x.key = g := by
  rw [graph, GraphStore.getOrCreate, hget]

/-- A batch records what a replay of its queries would have recorded. It is one part of a trace:
before it some queries have been recorded, and `left` more are allowed for. -/
theorem advance_spec (hf : f.Rested) (hn : f.catalog.partitions < halfWordLimit)
    (hr : f.router.Within f.catalog.partitions)
    (hp : f.catalog.procedure x.key.procedure = .ok p) (hget : f.store.get? x.key = some g)
    (qs : List Query) (h : x.Underway g f.catalog.partitions rest m (qs.length + left))
    (hinner : g.isTerminal x.current = false) :
    ∃ f' g' x' visited result stop,
      Recording p f.router f.catalog.partitions rest m g x qs g' x' visited result left
        ∧ f.advance x qs = .ok (f', x', stop)
        ∧ (stop.map fun _ => ()) = (result.map fun _ => ())
        ∧ Handled f f' ∧ f'.store = f.store.set x.key g' := by
  obtain ⟨f₁, w, idle, hborrow, hhandled₁, hw, hstore₁⟩ := hf.borrow
  have hgraph : f₁.graph x.key = g := graph_eq (hstore₁ ▸ hget)
  obtain ⟨g', y, visited, result, hrecording, hrecord⟩ :=
    record_spec (p := p) hn hr qs h hinner
  -- The batch has recorded into a graph of its own, which is now put into the store.
  have hkey : y.key = x.key := hrecording.key
  obtain ⟨f₂, ⟨x', stop⟩, hend, hhandled₂, hstore₂, ⟨estimates, rfl⟩, hstop⟩ :=
    endBatch_total (p := p) hhandled₁.rested hn hw idle hrecording.underway (result.map fun _ => ())
  refine ⟨f₂, g', _, visited, result, stop, hrecording.setEstimates estimates, ?_, hstop,
    hhandled₁.trans hhandled₂, ?_⟩
  · rw [advance_of_borrow hp hborrow, hgraph, hhandled₁.router, recordBatch, hinner,
      if_neg fun hended => Bool.false_ne_true hended.1, Outcome.bind_of_ok hrecord]
    exact hend
  · rw [hstore₂, hstore₁, hkey]

omit [Scalar R] in
/-- A forecast has aborted if its path has come to ABORT. What is looked at is the kind of the
vertex at which the path stands. -/
theorem hasAborted_eq (hget : f.store.get? x.key = some g) (hinit : g.Initialized ⟨0, 1, 2⟩)
    {aborted : Bool}
    (hstands : if aborted then x.current = 2 else g.isTerminal x.current = false) :
    f.hasAborted x = aborted := by
  rw [hasAborted, graph_eq hget]
  cases aborted with
  | true =>
    rw [show x.current = 2 from hstands]
    obtain ⟨v, hv, hkind⟩ := Option.map_eq_some_iff.mp hinit.abort
    rw [hv, Option.any_some, hkind]
    rfl
  | false =>
    have hinner : g.isTerminal x.current = false := hstands
    rw [Graph.isTerminal] at hinner
    cases hv : g.vertices[x.current]? with
    | none => rfl
    | some v =>
      rw [hv, Option.any_some] at hinner
      rw [Option.any_some, beq_eq_false_iff_ne]
      -- A path that stood at ABORT would have come to an end.
      intro habort
      rw [habort] at hinner
      cases hinner

/-- Batch by batch, what is recorded is what a replay of all queries would have recorded. Between
batches the forecaster changes its pools and its store, of which recording reads the one graph only.
-/
theorem advanceAll_spec (hf : f.Rested) (hn : f.catalog.partitions < halfWordLimit)
    (hr : f.router.Within f.catalog.partitions)
    (hp : f.catalog.procedure x.key.procedure = .ok p) (hget : f.store.get? x.key = some g)
    (batches : List (List Query))
    (h : x.Underway g f.catalog.partitions rest m batches.flatten.length)
    (hinner : g.isTerminal x.current = false) :
    ∃ f' g' x' visited result,
      Recording p f.router f.catalog.partitions rest m g x batches.flatten g' x' visited result 0
        ∧ f.advanceAll x batches = .ok (f', x', result.map fun _ => ())
        ∧ Handled f f' ∧ f'.store = f.store.set x.key g' := by
  induction batches generalizing f g x with
  | nil =>
    exact ⟨f, g, x, [], .ok false, Forecast.recording_nil h hinner, rfl,
      ⟨rfl, rfl, rfl, rfl, hf⟩, (GraphStore.set_get hget).symm⟩
  | cons qs batches ih =>
    rw [List.flatten_cons, List.length_append] at h
    obtain ⟨f₁, g₁, x₁, visited₁, result₁, stop, hbatch, hadvance, hstop, hhandled₁, hstore₁⟩ :=
      advance_spec hf hn hr hp hget qs h hinner
    have hkey : x₁.key = x.key := hbatch.key
    have hget₁ : f₁.store.get? x₁.key = some g₁ := by
      rw [hstore₁, hkey, GraphStore.get?_set_self]
    rw [advanceAll, hadvance]
    -- The batches after this one are advanced only if all its queries went well.
    rcases result₁ with e | aborted
    · cases stop with
      | ok _ => cases hstop
      | error e' =>
        cases hstop
        exact ⟨f₁, g₁, x₁, visited₁, .error e,
          (hbatch.extend nofun batches.flatten).mono (Nat.zero_le _), rfl, hhandled₁, hstore₁⟩
    · cases stop with
      | error e' => cases hstop
      | ok _ =>
        have hstands := hbatch.stands aborted rfl
        dsimp only
        rw [hasAborted_eq hget₁ hbatch.underway.recorded.initialized hstands]
        cases aborted with
        | true =>
          exact ⟨f₁, g₁, x₁, visited₁, .ok true,
            (hbatch.extend nofun batches.flatten).mono (Nat.zero_le _), rfl, hhandled₁, hstore₁⟩
        | false =>
          -- The forecaster has changed, but neither its catalog nor its router.
          have hunderway := hbatch.underway
          rw [← hhandled₁.catalog] at hunderway hn hr
          obtain ⟨f₂, g₂, x₂, visited₂, result₂, hrest, hall, hhandled₂, hstore₂⟩ :=
            ih hhandled₁.rested hn (hhandled₁.router ▸ hr) (by rw [hhandled₁.catalog, hkey, hp])
              hget₁ hunderway hstands
          rw [hhandled₁.catalog, hhandled₁.router] at hrest
          refine ⟨f₂, g₂, x₂, _, result₂, hbatch.trans hrest, hall, hhandled₁.trans hhandled₂, ?_⟩
          rw [hstore₂, hstore₁, hkey, GraphStore.set_set]

end Forecaster

end TxnPath
