import Mathlib.Data.List.SplitBy
import TxnPath.Proofs.Catalog
import TxnPath.Proofs.Forecast.Online
import TxnPath.Proofs.Graph.Windows

/-!
# `TxnPath.Proofs.Forecast.Training`: online and offline training agree

A trace can be learned in two ways. Offline it is replayed into its graph. Online it is followed
batch by batch, with a walk after each batch, and closed in the end as it ended; closing may
recompute the graph. `Forecaster.learn_agrees_with_replay` says that this makes no difference to
what is recorded: both fail with the same error or both succeed, and every graph of the store has
the same vertices and edges under the same numbers, with the same hits and measurements
(`Graph.SameRecord`). Only the split of the hits between the window and the totals, and with it
the derived probabilities, may differ, because recomputing moves hits from one to the other.
-/

set_option autoImplicit false

namespace TxnPath

variable {R : Type}

namespace GraphStore

/-- The same is recorded in the graphs of two stores, key by key. -/
def SameRecord (s s' : GraphStore R) : Prop :=
  ∀ k, Option.Rel Graph.SameRecord (s.get? k) (s'.get? k)

/-- In a store the same is recorded as in itself. -/
theorem SameRecord.refl (s : GraphStore R) : s.SameRecord s := fun k => by
  cases s.get? k with
  | none => exact .none
  | some g => exact .some (.refl g)

/-- Putting graphs in which the same is recorded under one key of both stores keeps this so. -/
theorem SameRecord.set {s s' : GraphStore R} {g g' : Graph R} (h : s.SameRecord s')
    (k : GraphKey) (hg : g.SameRecord g') : (s.set k g).SameRecord (s'.set k g') := fun k' => by
  by_cases hk : k = k'
  · rw [← hk, get?_set_self, get?_set_self]
    exact .some hg
  · rw [get?_set_ne _ _ hk, get?_set_ne _ _ hk]
    exact h k'

/-- A trace with a place is replayed into the graph there. -/
theorem replay_placed [Scalar R] {s : GraphStore R} {c : Catalog} {r : Router} {t : Trace}
    {p : Procedure} {k : GraphKey} {g : Graph R} {result : Except Error (List Nat)}
    (hplace : placeOf c r t = .ok (p, k))
    (hrun : (s.getOrCreate k c.partitions).2.replay t p r = .ok (g, result)) :
    s.replay c r t
      = .ok ((s.getOrCreate k c.partitions).1.set k g, result.map fun _ => k) := by
  rw [replay, hplace]
  dsimp only
  rw [hrun]
  cases result <;> rfl

end GraphStore

/-- A path of one vertex stands at this vertex. -/
theorem Forecast.current_of_path {x : Forecast R} {v : Nat} (h : x.path = [v]) :
    x.current = v := by
  have hlast := x.getLast?_path
  rw [h] at hlast
  exact (Option.some.inj hlast).symm

namespace Forecaster

open Forecast (Recording)

variable [Scalar R] {f : Forecaster R} {g : Graph R} {x : Forecast R} {rest : List (List Nat)}
  {m : Nat} {p : Procedure}

/-- Follows a recorded transaction and closes it as it ended. -/
def learn (f : Forecaster R) (t : Trace) : Except Fault (Forecaster R × Except Error Bool) :=
  match f.follow t with
  | .error e => .error e
  | .ok (f, .error e) => .ok (f, .error e)
  | .ok (f, .ok x) => (f.close x (!t.isAborted)).map fun (f, drifted) => (f, .ok drifted)

/-! ### Where a transaction starts -/

/-- A transaction whose procedure and base partition can be told starts at START of its graph. There
its path is [0], since START is the first vertex of a graph of the store, and what is recorded of it
next is recorded as a replay does it. -/
theorem start_spec (hf : f.Rested) (hn : f.catalog.partitions < halfWordLimit) {t : Trace}
    {k : GraphKey} (hp : f.catalog.procedure t.procedure = .ok p)
    (hbase : f.router.base p t.params = .ok k.base) (hkey : k.procedure = t.procedure)
    (hg : (f.graph k).Stored k f.catalog.partitions) {left : Nat}
    (hroom : (f.graph k).vertices.size + left ≤ halfWordLimit) :
    ∃ f' x, f.start t.txn t.procedure t.params = .ok (f', .ok x) ∧ Handled f f'
      ∧ f'.store = (f.store.getOrCreate k f.catalog.partitions).1
      ∧ x.key = k ∧ x.path = [0] ∧ x.called = []
      ∧ ∀ paths m, (f.graph k).Recorded ⟨0, 1, 2⟩ paths m →
        x.Underway (f.graph k) f.catalog.partitions paths m left := by
  obtain ⟨base, procedure⟩ := k
  obtain rfl : procedure = t.procedure := hkey
  obtain ⟨_, _, hrecorded⟩ := hg.recorded
  -- The graph is created if it is not there; then a walker sets out from START and is put back.
  have hcreated := hf.setStore (f.store.getOrCreate ⟨base, t.procedure⟩ f.catalog.partitions).1
  obtain ⟨f₁, w, idle, hborrow, hhandled₁, hw, hstore₁⟩ := hcreated.rested.borrow
  obtain ⟨w', hwalk⟩ := Walker.traverse_ok
    (j := f₁.journey (f.graph ⟨base, t.procedure⟩) p t.params) hrecorded.initialized hw
    (Graph.lt_size hrecorded.initialized.start) (Nat.le_trans (Nat.le_add_right _ _) hroom)
    (hg.confined.partitions ▸ hn) hg.confined.inRange
  obtain ⟨f₂, hreturn, hhandled₂, hstore₂⟩ := hhandled₁.rested.returnWalker w'
  have hhandled := hcreated.trans (hhandled₁.trans hhandled₂)
  let x : Forecast R := ⟨t.txn, ⟨base, t.procedure⟩, t.params, w'.visited,
    idle.copyFrom w'.estimate, [], 0, [], [], .empty f₂.catalog.partitions⟩
  have htouched : x.touched.Rounds f.catalog.partitions 0 [] := by
    rw [← hhandled.catalog]
    exact DenseHistogram.rounds_empty _
  refine ⟨f₂, x, ?_, hhandled, hstore₂.trans hstore₁, rfl, rfl, rfl,
    fun paths m h => ⟨h.begin, hg.confined, hroom, 0, ?_, htouched⟩⟩
  · rw [start, hp]
    dsimp only
    rw [hbase]
    refine (Outcome.bind_of_ok hborrow).trans ?_
    refine (Outcome.bind_of_ok hrecorded.initialized.requireSentinels_eq).trans ?_
    refine (Outcome.bind_of_ok hwalk).trans ?_
    exact Outcome.bind_of_ok hreturn
  · omega

/-- A transaction whose procedure or base partition cannot be told does not start. It is refused
with the error with which its trace could not be placed. -/
theorem start_error {t : Trace} {e : Error}
    (h : GraphStore.placeOf f.catalog f.router t = .error e) :
    f.start t.txn t.procedure t.params = .ok (f, .error e) := by
  rw [GraphStore.placeOf] at h
  rw [start]
  cases hp : f.catalog.procedure t.procedure with
  | error e' =>
    rw [hp] at h
    cases h
    rfl
  -- The procedure is known, so that it was its base partition that could not be found.
  | ok p =>
    rw [hp] at h
    dsimp only at h ⊢
    cases hbase : f.router.base p t.params with
    | error e' =>
      rw [hbase] at h
      cases h
      rfl
    | ok base =>
      rw [hbase] at h
      cases h

/-! ### How a transaction ends -/

/-- The graph in which a transaction has been led to its end and counted. -/
def ended (g : Graph R) (x : Forecast R) (committed : Bool) : Graph R :=
  (if g.isTerminal x.current then g
    else (g.link x.current (if committed then 1 else 2)).1).recordTxn

/-- A transaction can be counted if its graph can be recomputed, should it have drifted. What was
borrowed is given back, so that nothing that is idle is in use. -/
theorem endClose_total (hf : f.Rested) {g' : Graph R} (hrecompute : g.recordTxn.recompute = .ok g') :
    ∃ f' drifted, f.endClose x g = .ok (f', drifted) ∧ f'.Rested := by
  rw [endClose]
  dsimp only
  split
  · have hset := hf.setStore (f.store.set x.key g')
    obtain ⟨f', hdiscard, hhandled, _⟩ :=
      hset.rested.returnEstimates (x.initial :: x.estimates)
    exact ⟨f', _, (Outcome.bind_of_ok hrecompute).trans (Outcome.bind_of_ok hdiscard),
      hhandled.rested⟩
  · have hset := hf.setStore (f.store.set x.key g.recordTxn)
    obtain ⟨f', hdiscard, hhandled, _⟩ :=
      hset.rested.returnEstimates (x.initial :: x.estimates)
    exact ⟨f', _, Outcome.bind_of_ok hdiscard, hhandled.rested⟩

/-- A transaction is counted, and its graph recomputed if it has drifted. -/
theorem endClose_spec (hf : f.Rested) {s : Sentinels} {paths : List (List Nat)} {n : Nat}
    (h : g.Recorded s paths n) :
    ∃ f' drifted g', f.endClose x g = .ok (f', drifted) ∧ f'.store = f.store.set x.key g'
      ∧ g.recordTxn.SameRecord g' := by
  obtain ⟨_, hrecompute, _⟩ := h.recordTxn.recompute
  obtain ⟨f', drifted, hend, _⟩ := endClose_total (x := x) hf hrecompute
  obtain ⟨g', hstore, rfl | hrun⟩ := endClose_cases hend
  · exact ⟨f', drifted, _, hend, hstore, .refl _⟩
  · exact ⟨f', drifted, g', hend, hstore, Graph.sameRecord_recompute hrun⟩

/-- Closing leads a transaction to its end and counts it. The end is where its path stands already,
if it aborted, and otherwise one step away. -/
theorem close_spec (hf : f.Rested) (hget : f.store.get? x.key = some g)
    (h : g.Recorded ⟨0, 1, 2⟩ (x.path :: rest) m) (committed : Bool) :
    ∃ f' drifted g', f.close x committed = .ok (f', drifted) ∧ f'.store = f.store.set x.key g'
      ∧ (ended g x committed).SameRecord g' := by
  rw [close, graph_eq hget, ended]
  rw [Outcome.bind_of_ok h.initialized.requireSentinels_eq]
  cases hinner : g.isTerminal x.current with
  | true => exact endClose_spec hf h
  | false =>
    -- The path is open, so that it is led on to the end that the transaction has come to.
    have hlt : x.current < g.vertices.size ∧ (if committed then 1 else 2) < g.vertices.size := by
      refine ⟨(h.path _ List.mem_cons_self).inside _ (List.mem_of_getLast? x.getLast?_path), ?_⟩
      split
      · exact Graph.lt_size h.initialized.commit
      · exact Graph.lt_size h.initialized.abort
    have hlink : g.link? x.current (if committed then 1 else 2)
        = .ok (g.link x.current (if committed then 1 else 2)) := by
      rw [Graph.link?, if_pos hlt]
    obtain ⟨f', drifted, g', hend, hstore, hsame⟩ :=
      endClose_spec (x := x) hf (h.link x.getLast?_path hinner hlt.2)
    exact ⟨f', drifted, g', (Outcome.bind_of_ok hlink).trans hend, hstore, hsame⟩

/-! ### What a replay comes to -/

/-- What a forecast has recorded is what a replay of the queries records. -/
theorem replayQueries_of_recording {r : Router} {n left : Nat} {qs : List Query} {g' : Graph R}
    {x' : Forecast R} {visited : List Nat} {result : Except Error Bool}
    (h : Recording p r n rest m g x qs g' x' visited result left) :
    Graph.replayQueries p r g x.current x.called qs = .ok (g', visited, result) := by
  have hrun := h.queries []
  rw [List.append_nil] at hrun
  rw [hrun]
  rcases result with e | _ | _
  · rfl
  · rw [Forecast.resume, Graph.replayQueries]
    exact congrArg (fun path => Except.ok (g', path, Except.ok false)) (List.append_nil visited)
  · rfl

/-- Whatever a replay can record of a trace, its graph is the one in which the forecast of the
same queries has been led to its end. -/
theorem replay_of_recording {r : Router} {n left : Nat} {t : Trace} {g' : Graph R}
    {x' : Forecast R} {visited : List Nat} {result : Except Error Bool}
    (hpath : x.path = [0]) (hcalled : x.called = [])
    (hrecorded : g.Recorded ⟨0, 1, 2⟩ (x.path :: rest) m)
    (h : Recording p r n rest m g x t.queries g' x' visited result left) :
    match result with
    | .error e => g.replay t p r = .ok (g', .error e)
    | .ok _ => ∃ path, g.replay t p r = .ok (ended g' x' (!t.isAborted), .ok path) := by
  have hcurrent : x.current = 0 := Forecast.current_of_path hpath
  have hqueries := replayQueries_of_recording h
  have hafter := (hrecorded.replayQueries x.getLast?_path
    (hcurrent ▸ Graph.isTerminal_start hrecorded.initialized) hqueries).2
  rw [hcurrent, hcalled] at hqueries
  have hpath' : x'.path = 0 :: visited := by rw [h.path, hpath, List.singleton_append]
  rw [Graph.replay, Outcome.bind_of_ok hrecorded.initialized.requireSentinels_eq,
    Outcome.bind_of_ok hqueries]
  rcases result with e | aborted
  · rfl
  · obtain ⟨hany, _⟩ := hafter aborted rfl
    have hstands := h.stands aborted rfl
    rw [ended]
    cases aborted with
    | true =>
      have habort : g'.isTerminal x'.current = true := by
        rw [show x'.current = 2 from hstands]
        exact (Graph.isTerminal_iff h.underway.recorded.initialized).mpr (.inr rfl)
      rw [if_pos habort]
      exact ⟨_, rfl⟩
    | false =>
      have hinner : g'.isTerminal x'.current = false := hstands
      have hlast : (0 :: visited).getLast (List.cons_ne_nil _ _) = x'.current :=
        List.getLast_of_getLast?_eq_some (hpath' ▸ x'.getLast?_path)
      -- No query aborted the transaction, so that it ended as its trace says.
      have haborted : t.isAborted = t.aborted := by rw [Trace.isAborted, ← hany, Bool.or_false]
      rw [hinner, haborted]
      dsimp only
      rw [hlast]
      cases t.aborted <;> exact ⟨_, rfl⟩

section Batches

variable {t : Trace} {f₁ f₂ f₃ : Forecaster R} {x' : Forecast R}

/-- A transaction whose batches fail is given up. -/
theorem learn_failed {e : Error} (hstart : f.start t.txn t.procedure t.params = .ok (f₁, .ok x))
    (hadvance : f₁.advanceAll x t.batches = .ok (f₂, x', .error e))
    (hdiscard : f₂.discard x' = .ok f₃) : f.learn t = .ok (f₃, .error e) := by
  rw [learn, follow, hstart]
  dsimp only
  rw [hadvance]
  dsimp only
  rw [hdiscard]
  rfl

/-- A transaction whose batches go well is closed as it ended. -/
theorem learn_closed {drifted : Bool}
    (hstart : f.start t.txn t.procedure t.params = .ok (f₁, .ok x))
    (hadvance : f₁.advanceAll x t.batches = .ok (f₂, x', .ok ()))
    (hclose : f₂.close x' (!t.isAborted) = .ok (f₃, drifted)) :
    f.learn t = .ok (f₃, .ok drifted) := by
  rw [learn, follow, hstart]
  dsimp only
  rw [hadvance]
  dsimp only
  rw [hclose]
  rfl

end Batches

/-- A transaction that has started is followed to its end as a replay records it. Whether it fails
midway or comes to its end, both answer the same; and the graphs differ in what is derived, as
closing a forecast may recompute. -/
theorem follow_spec {t : Trace} {f₁ : Forecaster R} {n : Nat}
    (hstart : f.start t.txn t.procedure t.params = .ok (f₁, .ok x)) (hf : f₁.Rested)
    (hn : f₁.catalog.partitions = n) (hparts : n < halfWordLimit) (hr : f₁.router.Within n)
    (hp : f₁.catalog.procedure x.key.procedure = .ok p) (hget : f₁.store.get? x.key = some g)
    (h : x.Underway g n rest m t.queries.length) (hpath : x.path = [0]) (hcalled : x.called = []) :
    ∃ f' g₁ g' replayed closed, g.replay t p f₁.router = .ok (g₁, replayed)
      ∧ f.learn t = .ok (f', closed)
      ∧ (replayed.map fun _ => ()) = (closed.map fun _ => ())
      ∧ f'.store = f₁.store.set x.key g' ∧ g₁.SameRecord g' := by
  subst hn
  have hflatten : t.batches.flatten = t.queries := List.flatten_splitBy ..
  have hcurrent : x.current = 0 := Forecast.current_of_path hpath
  have hinner : g.isTerminal x.current = false :=
    hcurrent ▸ Graph.isTerminal_start h.recorded.initialized
  obtain ⟨f₂, g₂, x₂, visited, result, hrecording, hadvance, hhandled₂, hstore₂⟩ :=
    advanceAll_spec hf hparts hr hp hget t.batches (hflatten ▸ h) hinner
  rw [hflatten] at hrecording
  have hkey₂ : x₂.key = x.key := hrecording.key
  have hreplay := replay_of_recording hpath hcalled h.recorded hrecording
  -- A transaction that failed is given up; all others are closed, which may recompute the graph.
  rcases result with e | aborted
  · obtain ⟨f₃, hdiscard, _, hstore₃⟩ :=
      hhandled₂.rested.returnEstimates (x₂.initial :: x₂.estimates)
    exact ⟨f₃, g₂, g₂, .error e, .error e, hreplay, learn_failed hstart hadvance hdiscard, rfl,
      hstore₃.trans hstore₂, .refl g₂⟩
  · obtain ⟨path, hreplay⟩ := hreplay
    have hget₂ : f₂.store.get? x₂.key = some g₂ := by
      rw [hstore₂, hkey₂, GraphStore.get?_set_self]
    obtain ⟨f₃, drifted, g₃, hclose, hstore₃, hsame⟩ :=
      close_spec hhandled₂.rested hget₂ hrecording.underway.recorded (!t.isAborted)
    refine ⟨f₃, _, g₃, .ok path, .ok drifted, hreplay, learn_closed hstart hadvance hclose, rfl, ?_,
      hsame⟩
    rw [hstore₃, hstore₂, hkey₂, GraphStore.set_set]

/-- Online and offline training agree. Whatever training has filled the store with, following a trace
and closing it as it ended fails if replaying it fails, with the same error, and else succeeds; and
both record the same. The bounds are those of the numbers that vertices and partitions get. -/
theorem learn_agrees_with_replay (hfilled : GraphStore.Filled f.catalog f.store)
    (hrouter : f.router.Within f.catalog.partitions) (hpools : f.Rested)
    (hparts : f.catalog.partitions < halfWordLimit) (t : Trace)
    (hroom : ∀ p k, GraphStore.placeOf f.catalog f.router t = .ok (p, k) →
      (f.graph k).vertices.size + t.queries.length ≤ halfWordLimit) :
    ∃ store replayed f' closed, f.store.replay f.catalog f.router t = .ok (store, replayed)
      ∧ f.learn t = .ok (f', closed)
      ∧ (replayed.map fun _ => ()) = (closed.map fun _ => ())
      ∧ store.SameRecord f'.store := by
  cases hplace : GraphStore.placeOf f.catalog f.router t with
  | error e =>
    refine ⟨f.store, .error e, f, .error e, ?_, ?_, rfl, .refl f.store⟩
    · rw [GraphStore.replay, hplace]
    · rw [learn, follow, start_error hplace]
  -- The trace can be placed. From the start on, the forecast stands in the graph in which the trace
  -- is replayed.
  | ok place =>
    obtain ⟨p, k⟩ := place
    obtain ⟨hp, hbase, hkey⟩ := GraphStore.placeOf_ok hplace
    have hid : k.procedure = t.procedure := hkey.trans (Catalog.procedure_ok hp).2
    have hstored : (f.graph k).Stored k f.catalog.partitions :=
      (hfilled.sound.getOrCreate (hrouter.base _ _ _ hbase)).2
    obtain ⟨paths, m, hrecorded⟩ := hstored.recorded
    obtain ⟨f₁, x, hstart, hhandled, hstore, rfl, hpath, hcalled, hunderway⟩ :=
      start_spec hpools hparts hp hbase hid hstored (hroom p k hplace)
    have hget : f₁.store.get? x.key = some (f.graph x.key) := by
      rw [hstore]
      exact Traffic.get?_getOrCreate_self ..
    obtain ⟨f', g₁, g', replayed, closed, hreplay, hlearn, hresults, hstore', hsame⟩ :=
      follow_spec hstart hhandled.rested (congrArg Catalog.partitions hhandled.catalog) hparts
        (hhandled.router ▸ hrouter) (by rw [hhandled.catalog, hid, hp]) hget
        (hunderway paths m hrecorded) hpath hcalled
    rw [hhandled.router] at hreplay
    refine ⟨_, _, f', closed, GraphStore.replay_placed hplace hreplay, hlearn, ?_, ?_⟩
    · rw [← hresults]
      cases replayed <;> rfl
    · rw [hstore', hstore]
      exact (GraphStore.SameRecord.refl _).set _ hsame

/-- A forecaster for transfers between two partitions. Its store was filled with one transfer. -/
def teller : Forecaster Rat :=
  let p : Procedure :=
    ⟨0, "transfer", [], [⟨0, "read", .select, [], []⟩, ⟨1, "write", .update, [], []⟩], false, false,
      none⟩
  let c : Catalog := ⟨2, [], [p]⟩
  let r : Router := ⟨2, fun _ _ => .ok 0, fun _ s _ _ => .ok (.singleton (s.id % 2))⟩
  let t : Trace := (Trace.start 1 0 []).push 0 [] 0 |>.push 1 [] 1
  let store := match (∅ : GraphStore Rat).train c r [t] with
    | .ok (store, _) => store
    | .error _ => ∅
  .new c r ∅ { Config.default with recomputeMinTxns := 1 } store

/-- The router of the example stays within the partitions. -/
theorem teller_within : teller.router.Within teller.catalog.partitions where
  base := fun _ _ b hb => by
    cases hb
    decide
  route := fun _ s _ _ touched _ hroute q hq => by
    cases hroute
    have hq : q = s.id % 2 := by simpa using hq
    rw [hq]
    exact Nat.mod_lt _ (by decide)

/-- Its store was filled by training. -/
theorem teller_filled : GraphStore.Filled teller.catalog teller.store := by
  show GraphStore.Filled _ (match (∅ : GraphStore Rat).train teller.catalog teller.router _ with
    | .ok (store, _) => store
    | .error _ => ∅)
  split
  case h_1 htrain => exact .train .empty teller_within htrain
  case h_2 => exact .empty

/-- A transfer of three batches. Its second write aborts it, so that its last query is not run. -/
def cancelled : Trace :=
  ⟨2, 0, [], [⟨0, [], 0, false, some 5⟩, ⟨1, [], 1, false, none⟩, ⟨1, [], 1, true, none⟩,
    ⟨0, [], 2, false, none⟩], false⟩

/-- The store is not empty, and closing the transfer recomputes its graph. -/
theorem learn_agrees_with_replay_cancelled :
    teller.store.size = 1 ∧ (teller.learn cancelled).toOption.map (·.2.toOption) = some (some true)
      ∧ ∃ store replayed f' closed, teller.store.replay teller.catalog teller.router cancelled
          = .ok (store, replayed)
        ∧ teller.learn cancelled = .ok (f', closed)
        ∧ (replayed.map fun _ => ()) = (closed.map fun _ => ())
        ∧ store.SameRecord f'.store := by
  refine ⟨by decide +kernel, by decide +kernel,
    learn_agrees_with_replay teller_filled teller_within (rested_new ..) (by decide) _ ?_⟩
  intro p k hplace
  cases hplace
  decide +kernel

end Forecaster

end TxnPath
