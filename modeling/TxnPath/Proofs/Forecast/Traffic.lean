import TxnPath.Forecast
import TxnPath.Proofs.Graph.Recorded

/-!
# `TxnPath.Proofs.Forecast.Traffic`: no hit is lost or counted twice

Many transactions are under way at once. Each extends the graph of its key step by step, traces
are replayed into the same graphs, and graphs are recomputed in between, when asked for or when
a transaction finds that its graph has drifted. `Traffic` is the state of all this: the graphs,
the forecasts of the open transactions, and a record of every path that is not open any more.

`Traffic.Sound` ties the graphs to the paths: under every key, the graph holds the paths of the
open forecasts and of the records, and there is no graph only where there are no paths. One
event changes the graph of one key (`Sound.change`), so that it is enough to look at this graph
and at the one path that the event adds or makes longer. `Traffic.run_counts` reads off the
counters after any sequence of events.
-/

set_option autoImplicit false

namespace TxnPath

variable {R : Type}

/-! ### Paths of forecasts -/

namespace Forecast

/-- A path stands at its last vertex. -/
theorem getLast?_path (f : Forecast R) : f.path.getLast? = some f.current := List.getLast?_cons

end Forecast

/-- The path of a closed transaction: it ends where it stands if a query aborted it, and else is
led to COMMIT or ABORT. -/
def closedPath (g : Graph R) (f : Forecast R) (committed : Bool) : List Nat :=
  if g.isTerminal f.current then f.path
  else f.path ++ (g.sentinels.map fun s => if committed then s.commit else s.abort).toList

namespace Forecaster

variable [Scalar R] {f f' : Forecaster R} {g g' : Graph R} {s : Sentinels} {x x' : Forecast R}
  {rest : List (List Nat)} {n : Nat}

/-- Borrowing changes the pools and nothing else. -/
theorem borrow_ok {w : Walker R} {idle : Estimate R} (h : f.borrow = .ok (f', w, idle)) :
    ∃ walkers estimates, f' = { f with walkers := walkers, estimates := estimates } := by
  rw [borrow] at h
  split at h
  · cases h
  · split at h
    · cases h
    · cases h
      exact ⟨_, _, rfl⟩

/-- Putting a walker back does not touch the graphs. -/
theorem returnWalker_store {w : Walker R} (h : f.returnWalker w = .ok f') : f'.store = f.store := by
  obtain ⟨_, _, rfl⟩ := Outcome.map_ok h
  rfl

omit [Scalar R] in
/-- Nor does putting estimates back. -/
theorem returnEstimates_store {es : List (Estimate R)} (h : f.returnEstimates es = .ok f') :
    f'.store = f.store := by
  obtain ⟨_, _, rfl⟩ := Outcome.map_ok h
  rfl

/-- A forecast that begins stands at START in the graph of its key, which is made if there was
none. -/
theorem start_ok {txn : TxnId} {procedure : ProcedureId} {args : List Value}
    {result : Except Error (Forecast R)}
    (h : f.start txn procedure args = .ok (f', result)) :
    (∃ e, result = .error e) ∧ f' = f
      ∨ ∃ x s, result = .ok x ∧ f'.store = (f.store.getOrCreate x.key f.catalog.partitions).1
        ∧ (f.graph x.key).sentinels = some s ∧ x.path = [s.start] := by
  rw [start] at h
  split at h
  · cases h
    exact .inl ⟨⟨_, rfl⟩, rfl⟩
  · split at h
    · cases h
      exact .inl ⟨⟨_, rfl⟩, rfl⟩
    -- The call can be placed. Its graph is created if need be, and its path stands at START.
    · refine .inr ?_
      obtain ⟨⟨f₁, w, idle⟩, hborrow, h⟩ := Outcome.bind_ok h
      obtain ⟨s, hs, h⟩ := Outcome.bind_ok h
      obtain ⟨w', _, h⟩ := Outcome.bind_ok h
      obtain ⟨f₂, hreturn, h⟩ := Outcome.bind_ok h
      cases h
      obtain ⟨_, _, rfl⟩ := borrow_ok hborrow
      refine ⟨_, s, rfl, ?_, ?_, rfl⟩
      · rw [returnWalker_store hreturn]
        rfl
      · rw [Graph.requireSentinels] at hs
        split at hs
        case h_1 hplaced => cases hs; exact hplaced
        case h_2 => cases hs

/-- A batch makes the path of its forecast longer, as far as its queries can be recorded. The paths
of the other transactions in this graph stay what they were: they are all `rest`. -/
theorem record_ok {p : Procedure} {r : Router} {qs : List Query} {result : Except Error Unit}
    (h : g.Recorded s (x.path :: rest) n) (hopen : g.isTerminal x.current = false ∨ qs = [])
    (hrun : record p r g x qs = .ok (g', x', result)) :
    g'.Recorded s (x'.path :: rest) n ∧ x'.key = x.key := by
  induction qs generalizing g x with
  | nil =>
    cases hrun
    exact ⟨h, rfl⟩
  | cons q qs ih =>
    have hinner := hopen.resolve_right (List.cons_ne_nil q qs)
    rw [record] at hrun
    split at hrun
    · cases hrun
    · cases hrun
      exact ⟨h, rfl⟩
    case h_3 g₁ step called hobserve =>
    obtain ⟨hstep, habort, hcall⟩ := h.observe x.getLast?_path hinner hobserve
    dsimp only at hrun
    split at hrun
    · cases hrun
    case h_2 touched _ =>
    split at hrun
    · cases hrun
      exact ⟨hstep, rfl⟩
    case isFalse hnone =>
      -- The batch goes on, from the vertex of the query.
      have hnone : step.abort = none := Option.not_isSome_iff_eq_none.mp hnone
      let y := { x with visited := x.visited ++ step.path, called := called, touched := touched }
      have hcurrent : y.current = step.vertex := by
        simp [y, Forecast.current, Step.path, hnone]
      obtain ⟨hall, hkey⟩ := ih (x := y) hstep (.inl (hcurrent ▸ hcall)) hrun
      exact ⟨hall, hkey⟩

/-- How a batch ends: its graph is put back, and an estimate is made unless a query failed. -/
def endBatch (f : Forecaster R) (w : Walker R) (idle : Estimate R) (p : Procedure) (g : Graph R)
    (x : Forecast R) : Except Error Unit → Except Fault (Forecaster R × Forecast R × Except Error (Estimate R))
  | .error e => do
    let f ← { f with store := f.store.set x.key g }.returnEstimates [idle]
    let f ← f.returnWalker w
    pure (f, x, .error e)
  | .ok () => do
    let f := { f with store := f.store.set x.key g }
    let w ← w.traverse (f.journey g p x.args) x.current
    let f ← f.returnWalker w
    let e := { idle.copyFrom w.estimate with
      point := some (.afterBatch x.estimates.length)
      touched := x.touched }
    pure (f, { x with estimates := x.estimates ++ [e] }, .ok e)

/-- What a batch records: nothing if its path has ended, and else its queries. -/
def recordBatch (p : Procedure) (r : Router) (g : Graph R) (x : Forecast R) (qs : List Query) :
    Except Fault (Graph R × Forecast R × Except Error Unit) :=
  if g.isTerminal x.current = true ∧ qs ≠ [] then
    .ok (g, x, .error (.routing (.pathEnded x.txn)))
  else record p r g x qs

/-- A batch is recorded in the graph of its forecast, and then ended. So each half can be dealt with
alone; the walker and the estimate have been borrowed before either. -/
theorem advance_of_borrow {f₁ : Forecaster R} {w : Walker R} {idle : Estimate R} {p : Procedure}
    {qs : List Query} (hp : f.catalog.procedure x.key.procedure = .ok p)
    (hborrow : f.borrow = .ok (f₁, w, idle)) :
    f.advance x qs = recordBatch p f₁.router (f₁.graph x.key) x qs >>= fun out =>
      f₁.endBatch w idle p out.1 out.2.1 out.2.2 := by
  rw [advance, hp]
  dsimp only
  rw [hborrow]
  show (if (f₁.graph x.key).isTerminal x.current = true ∧ qs ≠ [] then _ else _) = _
  rw [recordBatch]
  split
  · rfl
  · refine congrArg (Except.bind _) (funext fun out => ?_)
    obtain ⟨g, y, stop⟩ := out
    cases stop <;> rfl

/-- The end of a batch puts the graph in place, and leaves path and key of the forecast as they are.
-/
theorem endBatch_ok {w : Walker R} {idle : Estimate R} {p : Procedure} {stop : Except Error Unit}
    {result : Except Error (Estimate R)} (h : f.endBatch w idle p g x stop = .ok (f', x', result)) :
    f'.store = f.store.set x.key g ∧ x'.path = x.path ∧ x'.key = x.key := by
  cases stop with
  | error e =>
    obtain ⟨f₁, hestimates, h⟩ := Outcome.bind_ok h
    obtain ⟨f₂, hwalker, h⟩ := Outcome.bind_ok h
    cases h
    rw [returnWalker_store hwalker, returnEstimates_store hestimates]
    exact ⟨rfl, rfl, rfl⟩
  | ok _ =>
    obtain ⟨w', _, h⟩ := Outcome.bind_ok h
    obtain ⟨f₁, hwalker, h⟩ := Outcome.bind_ok h
    cases h
    rw [returnWalker_store hwalker]
    exact ⟨rfl, rfl, rfl⟩

/-- A batch is refused, or it ends in one way, whatever was recorded of it: nothing, if its path had
ended, or its queries. -/
theorem advance_cases {qs : List Query} {result : Except Error (Estimate R)}
    (hrun : f.advance x qs = .ok (f', x', result)) :
    f' = f ∧ x' = x ∧ (∃ e, result = .error e)
      ∨ ∃ p f₁ w idle g y stop, f.borrow = .ok (f₁, w, idle)
        ∧ f₁.endBatch w idle p g y stop = .ok (f', x', result)
        ∧ (g = f₁.graph x.key ∧ y = x
          ∨ ((f₁.graph x.key).isTerminal x.current = false ∨ qs = [])
            ∧ record p f₁.router (f₁.graph x.key) x qs = .ok (g, y, stop)) := by
  cases hp : f.catalog.procedure x.key.procedure with
  | error e =>
    rw [advance, hp] at hrun
    cases hrun
    exact .inl ⟨rfl, rfl, _, rfl⟩
  | ok p =>
    right
    cases hborrow : f.borrow with
    | error fault =>
      rw [advance, hp] at hrun
      dsimp only at hrun
      rw [hborrow] at hrun
      cases hrun
    -- The batch is either recorded, in whole or up to a rejected query, or refused because the path
    -- has ended.
    | ok borrowed =>
      obtain ⟨f₁, w, idle⟩ := borrowed
      rw [advance_of_borrow hp hborrow] at hrun
      obtain ⟨⟨g, y, stop⟩, hrecord, hend⟩ := Outcome.bind_ok hrun
      refine ⟨p, f₁, w, idle, g, y, stop, rfl, hend, ?_⟩
      rw [recordBatch] at hrecord
      split at hrecord
      case isTrue =>
        cases hrecord
        exact .inl ⟨rfl, rfl⟩
      case isFalse hopen =>
        rw [not_and_or, Bool.not_eq_true, not_not] at hopen
        exact .inr ⟨hopen, hrecord⟩

/-- A batch sets the graph of its forecast and makes the forecast's path longer, unless there is no
such procedure. -/
theorem advance_ok {qs : List Query} {result : Except Error (Estimate R)}
    (h : (f.graph x.key).Recorded s (x.path :: rest) n)
    (hrun : f.advance x qs = .ok (f', x', result)) :
    x'.key = x.key ∧ (f'.store = f.store ∧ x' = x
      ∨ ∃ g, f'.store = f.store.set x.key g ∧ g.Recorded s (x'.path :: rest) n) := by
  rcases advance_cases hrun with ⟨rfl, rfl, _⟩ | ⟨p, f₁, w, idle, g, y, stop, hborrow, hend, hrecord⟩
  · exact ⟨rfl, .inl ⟨rfl, rfl⟩⟩
  obtain ⟨walkers, estimates, hf₁⟩ := borrow_ok hborrow
  have hgraph : f₁.graph x.key = f.graph x.key := by
    rw [hf₁]
    rfl
  rw [← hgraph] at h
  -- The batch recorded nothing, or some of its queries, whether or not it went well.
  have hbatch : g.Recorded s (y.path :: rest) n ∧ y.key = x.key := by
    rcases hrecord with ⟨rfl, rfl⟩ | ⟨hopen, hrecord⟩
    · exact ⟨h, rfl⟩
    · exact record_ok h hopen hrecord
  obtain ⟨hstore, hpath, hkey⟩ := endBatch_ok hend
  refine ⟨hkey.trans hbatch.2, .inr ⟨g, ?_, hpath ▸ hbatch.1⟩⟩
  rw [hstore, hbatch.2, hf₁]

/-- How a transaction is counted: its graph is recomputed if it has drifted, and is put back. -/
def endClose (f : Forecaster R) (x : Forecast R) (g : Graph R) :
    Except Fault (Forecaster R × Bool) := do
  let g := g.recordTxn
  let drifted := decide (f.config.recomputeMinTxns ≤ g.windowTxns) &&
    g.shouldRecompute f.config.recomputeTolerance f.config.recomputeProportion
  let g ← if drifted then g.recompute else pure g
  let f ← { f with store := f.store.set x.key g }.discard x
  pure (f, drifted)

/-- What is put back is the graph with the transaction counted, or what recomputing this gives.
Which of the two it is, is told by `drifted`, and does not matter for what is recorded. -/
theorem endClose_cases {drifted : Bool} (hrun : f.endClose x g = .ok (f', drifted)) :
    ∃ g', f'.store = f.store.set x.key g'
      ∧ (g' = g.recordTxn ∨ g.recordTxn.recompute = .ok g') := by
  rw [endClose] at hrun
  dsimp only at hrun
  split at hrun
  · obtain ⟨g₁, hrecompute, hrun⟩ := Outcome.bind_ok hrun
    obtain ⟨f₁, hdiscard, hrun⟩ := Outcome.bind_ok hrun
    cases hrun
    exact ⟨g₁, returnEstimates_store hdiscard, .inr hrecompute⟩
  · obtain ⟨_, hpure, hrun⟩ := Outcome.bind_ok hrun
    cases hpure
    obtain ⟨f₁, hdiscard, hrun⟩ := Outcome.bind_ok hrun
    cases hrun
    exact ⟨g.recordTxn, returnEstimates_store hdiscard, .inl rfl⟩

/-- Closing counts one transaction more, and records nothing beyond that, recomputed or not. -/
theorem endClose_ok {drifted : Bool} {paths : List (List Nat)} (h : g.Recorded s paths n)
    (hrun : f.endClose x g = .ok (f', drifted)) :
    ∃ g', f'.store = f.store.set x.key g' ∧ g'.Recorded s paths (n + 1) := by
  obtain ⟨g', hstore, rfl | hrecompute⟩ := endClose_cases hrun
  · exact ⟨_, hstore, h.recordTxn⟩
  · obtain ⟨g₁, hrecompute', hall⟩ := h.recordTxn.recompute
    obtain rfl := Except.ok.inj (hrecompute.symm.trans hrecompute')
    exact ⟨g', hstore, hall⟩

/-- Closing a forecast leads its path to an end, unless it has come to one, and counts it. A path
that has come to one did so by a query that aborted, and is not led on to COMMIT even if the
transaction is said to be committed. -/
theorem close_ok {committed drifted : Bool}
    (h : (f.graph x.key).Recorded s (x.path :: rest) n)
    (hrun : f.close x committed = .ok (f', drifted)) :
    ∃ g, f'.store = f.store.set x.key g
      ∧ g.Recorded s (closedPath (f.graph x.key) x committed :: rest) (n + 1) := by
  rw [close] at hrun
  obtain ⟨s', hs', hrun⟩ := Outcome.bind_ok hrun
  rw [h.initialized.requireSentinels_eq] at hs'
  cases hs'
  rw [closedPath]
  split at hrun
  case isTrue hended =>
    rw [if_pos hended]
    exact endClose_ok h hrun
  -- The path is still open, and is led to COMMIT or ABORT first.
  case isFalse hopen =>
    rw [if_neg hopen, h.initialized.placed, Option.map_some, Option.toList_some]
    obtain ⟨⟨g₁, e⟩, hlink, hrun⟩ := Outcome.bind_ok hrun
    generalize (if committed then s.commit else s.abort) = v at hlink ⊢
    rw [Graph.link?] at hlink
    split at hlink
    case isFalse => cases hlink
    case isTrue hlt =>
    have hlinked := h.link x.getLast?_path (Bool.not_eq_true _ ▸ hopen) hlt.2
    rw [Except.ok.inj hlink] at hlinked
    exact endClose_ok hlinked hrun

end Forecaster

/-! ### Traffic -/

/-- A path that is not open any more: that of a closed transaction, or that of a replayed trace. -/
structure Ended where
  key : GraphKey
  path : List Nat
  /-- Whether it counts as a transaction. Only a trace that was broken off does not. -/
  complete : Bool

/-- The graphs of a site, with the forecasts of its open transactions and the paths that have
ended. -/
structure Traffic (R : Type) where
  store : GraphStore R
  active : List (Forecast R)
  ended : List Ended

/-- Something that is done to the graphs. Several forecasters may share them: an event names the one
that acts, which then finds the graphs as they are. An open transaction is named by its position. -/
inductive Event (R : Type) where
  | start (f : Forecaster R) (txn : TxnId) (procedure : ProcedureId) (args : List Value)
  | advance (f : Forecaster R) (i : Nat) (queries : List Query)
  | close (f : Forecaster R) (i : Nat) (committed : Bool)
  | replay (k : GraphKey) (partitions : Nat) (t : Trace) (p : Procedure) (r : Router)
  | recompute (k : GraphKey)

namespace Traffic

/-- No graph, and no path. -/
def empty : Traffic R := ⟨∅, [], []⟩

/-- The paths under a key: those of the open transactions, and those that have ended. -/
def paths (w : Traffic R) (k : GraphKey) : List (List Nat) :=
  (w.active.filter fun x => x.key == k).map Forecast.path
    ++ (w.ended.filter fun e => e.key == k).map Ended.path

/-- The number of closed transactions and completely replayed traces under a key. -/
def finished (w : Traffic R) (k : GraphKey) : Nat :=
  w.ended.countP fun e => e.key == k && e.complete

/-! ### Where an event adds to the paths -/

variable {w w' u : Traffic R}

/-- One forecast adds its path to those of the others. -/
theorem paths_perm {x : Forecast R} {rest : List (Forecast R)} (h : w.active.Perm (x :: rest))
    (k : GraphKey) :
    (w.paths k).Perm
      ((if x.key = k then [x.path] else []) ++ { w with active := rest }.paths k) := by
  have hperm := ((h.filter fun x => x.key == k).map Forecast.path).append_right
    ((w.ended.filter fun e => e.key == k).map Ended.path)
  refine hperm.trans (List.Perm.of_eq ?_)
  rw [List.filter_cons]
  by_cases hk : x.key = k
  · rw [if_pos (beq_iff_eq.mpr hk), if_pos hk]
    rfl
  · rw [if_neg (mt beq_iff_eq.mp hk), if_neg hk]
    rfl

/-- A path that ends now adds itself to the others. -/
theorem paths_ended (e : Ended) (hactive : w'.active = w.active)
    (hended : w'.ended = w.ended ++ [e]) (k : GraphKey) :
    (w'.paths k).Perm ((if e.key = k then [e.path] else []) ++ w.paths k) := by
  rw [paths, paths, hactive, hended, List.filter_append, List.map_append, ← List.append_assoc]
  refine List.perm_append_comm.trans (List.Perm.of_eq ?_)
  by_cases hk : e.key = k
  · simp [hk]
  · simp [hk]

/-- A path that is noted as ended counts as finished if it is complete. -/
theorem finished_ended (e : Ended) (hended : w'.ended = w.ended ++ [e]) (k : GraphKey) :
    w'.finished k = w.finished k + if e.key = k ∧ e.complete then 1 else 0 := by
  rw [finished, finished, hended, List.countP_append, List.countP_singleton]
  simp

/-! ### Every graph holds the paths under its key -/

/-- A graph holds paths, of which some are finished. Where there is no graph there is no path. -/
def Held (g : Option (Graph R)) (paths : List (List Nat)) (finished : Nat) : Prop :=
  match g with
  | none => paths = [] ∧ finished = 0
  | some g => g.Recorded ⟨0, 1, 2⟩ paths finished

/-- Paths that a graph holds may be listed in any order. -/
theorem Held.perm {g : Option (Graph R)} {paths paths' : List (List Nat)} {n : Nat}
    (h : Held g paths n) (hperm : paths.Perm paths') : Held g paths' n := by
  cases g with
  | none => exact ⟨(h.1 ▸ hperm).symm.eq_nil, h.2⟩
  | some g => exact Graph.Recorded.perm h hperm

/-- Under every key, the graph holds the paths. -/
def Sound (w : Traffic R) : Prop := ∀ k, Held (w.store.get? k) (w.paths k) (w.finished k)

section Stores

variable {store : GraphStore R} {k k' : GraphKey} {paths : List (List Nat)} {n m : Nat}

/-- The graph that was asked for is under its key afterwards. -/
theorem get?_getOrCreate_self (store : GraphStore R) (k : GraphKey) (m : Nat) :
    (store.getOrCreate k m).1.get? k = some (store.getOrCreate k m).2 := by
  rw [GraphStore.getOrCreate]
  split
  case h_1 hget => exact hget
  case h_2 => exact GraphStore.get?_set_self ..

/-- Under the other keys there is what was there before. -/
theorem get?_getOrCreate_ne (h : k ≠ k') : (store.getOrCreate k m).1.get? k' = store.get? k' := by
  rw [GraphStore.getOrCreate]
  split
  · rfl
  · exact GraphStore.get?_set_ne _ _ h

/-- A graph that is made when it is asked for holds the paths that there are: none. -/
theorem Held.getOrCreate (h : Held (store.get? k) paths n) (m : Nat) :
    (store.getOrCreate k m).2.Recorded ⟨0, 1, 2⟩ paths n := by
  rw [GraphStore.getOrCreate]
  cases hget : store.get? k with
  | some g =>
    rw [hget] at h
    exact h
  | none =>
    rw [hget] at h
    obtain ⟨rfl, rfl⟩ := h
    exact Graph.recorded_fresh k.procedure k.base m

end Stores

/-- Without traffic there are neither graphs nor paths. -/
theorem sound_empty : (empty : Traffic R).Sound := by
  intro k
  have hget : (∅ : GraphStore R).get? k = none := Std.ExtTreeMap.getElem?_empty
  show Held ((∅ : GraphStore R).get? k) _ _
  rw [hget]
  exact ⟨rfl, rfl⟩

/-- The paths of one state are those of another, and some more under one key. -/
def Adds (w u : Traffic R) (k : GraphKey) (added : List (List Nat)) : Prop :=
  ∀ k', (w.paths k').Perm ((if k = k' then added else []) ++ u.paths k')

/-- An event changes the graph of one key. If this graph holds the paths under its key afterwards,
then every graph does: the other keys keep their graphs, their paths and what is finished there. -/
theorem Sound.change (h : w.Sound) {k : GraphKey} {g : Graph R} (before after : List (List Nat))
    (complete : Bool) (hbefore : w.Adds u k before) (hafter : w'.Adds u k after)
    (hfinished : ∀ k', w'.finished k' = w.finished k' + if k = k' ∧ complete then 1 else 0)
    (hself : w'.store.get? k = some g)
    (hother : ∀ k', k ≠ k' → w'.store.get? k' = w.store.get? k')
    (hrecorded : g.Recorded ⟨0, 1, 2⟩ (after ++ u.paths k)
      (w.finished k + if complete then 1 else 0)) : w'.Sound := by
  intro k'
  have hpaths := hafter k'
  rw [hfinished]
  by_cases hk : k = k'
  · subst hk
    rw [if_pos rfl] at hpaths
    have hcount : (if k = k ∧ complete then 1 else 0) = if complete then 1 else 0 := by simp
    rw [hself, hcount]
    exact hrecorded.perm hpaths.symm
  -- At another key the event has added nothing, neither before nor after.
  · have hold := hbefore k'
    rw [if_neg hk] at hpaths hold
    rw [hother k' hk, if_neg fun hboth => hk hboth.1]
    exact (h k').perm (hold.trans hpaths.symm)

/-- The graph of an open transaction holds its path, whichever forecaster looks for it. -/
theorem Sound.graph (h : w.Sound) {x : Forecast R} (hbefore : w.Adds u x.key [x.path])
    (f : Forecaster R) :
    (Forecaster.graph { f with store := w.store } x.key).Recorded ⟨0, 1, 2⟩
      (x.path :: u.paths x.key) (w.finished x.key) := by
  have hpaths := hbefore x.key
  rw [if_pos rfl] at hpaths
  exact ((h x.key).getOrCreate f.catalog.partitions).perm hpaths

/-! ### What events do -/

variable [Scalar R]

/-- What an event does. Nothing can be done to a transaction that is not open. -/
def step (w : Traffic R) : Event R → Except Fault (Traffic R)
  | .start f txn procedure args =>
    match { f with store := w.store }.start txn procedure args with
    | .error e => .error e
    | .ok (f, .error _) => .ok { w with store := f.store }
    | .ok (f, .ok x) => .ok { w with store := f.store, active := w.active ++ [x] }
  | .advance f i queries =>
    match w.active[i]? with
    | none => .ok w
    | some x =>
      match { f with store := w.store }.advance x queries with
      | .error e => .error e
      | .ok (f, x, _) => .ok { w with store := f.store, active := w.active.set i x }
  | .close f i committed =>
    match w.active[i]? with
    | none => .ok w
    | some x =>
      let f := { f with store := w.store }
      match f.close x committed with
      | .error e => .error e
      | .ok (f', _) => .ok
        { store := f'.store
          active := w.active.eraseIdx i
          ended := w.ended ++ [⟨x.key, closedPath (f.graph x.key) x committed, true⟩] }
  | .replay k partitions t p r =>
    let (store, g) := w.store.getOrCreate k partitions
    match g.replay t p r with
    | .error e => .error e
    | .ok (g', result) => .ok { w with
        store := store.set k g'
        ended := w.ended ++ [⟨k, g.replayPath t p r, result.isOk⟩] }
  | .recompute k => (w.store.recompute k).map fun store => { w with store := store }

/-- What a sequence of events does. -/
def run (w : Traffic R) (events : List (Event R)) : Except Fault (Traffic R) := events.foldlM step w

/-- A forecast that is started opens one path, in the graph of its key; a call that cannot be placed
opens none. -/
theorem Sound.start (h : w.Sound) {f : Forecaster R} {txn : TxnId} {procedure : ProcedureId}
    {args : List Value} (hstep : w.step (.start f txn procedure args) = .ok w') : w'.Sound := by
  rw [step] at hstep
  split at hstep
  · cases hstep
  case h_2 hstart =>
    obtain ⟨_, rfl⟩ | ⟨x, _, hresult, _⟩ := Forecaster.start_ok hstart
    · cases hstep
      exact h
    · cases hresult
  case h_3 x hstart =>
    obtain ⟨⟨e, he⟩, _⟩ | ⟨_, s, hx, hstore, hplaced, hpath⟩ := Forecaster.start_ok hstart
    · cases he
    obtain rfl := Except.ok.inj hx
    cases hstep
    -- The new path has only begun.
    have hgraph := (h x.key).getOrCreate f.catalog.partitions
    obtain rfl := Option.some.inj (hplaced.symm.trans hgraph.initialized.placed)
    refine h.change [] [x.path] false (u := w) (fun _ => by simp)
      (paths_perm (List.perm_append_singleton x w.active)) (fun _ => by simp [finished])
      (hstore ▸ get?_getOrCreate_self ..) (fun k' hk => hstore ▸ get?_getOrCreate_ne hk) ?_
    rw [hpath]
    exact hgraph.begin

/-- A batch makes the path of its forecast longer, by as much as was recorded. The other paths stay,
those in the same graph included. -/
theorem Sound.advance (h : w.Sound) {f : Forecaster R} {i : Nat} {queries : List Query}
    (hstep : w.step (.advance f i queries) = .ok w') : w'.Sound := by
  rw [step] at hstep
  split at hstep
  · cases hstep
    exact h
  case h_2 x hx =>
  split at hstep
  · cases hstep
  case h_2 f' x' _ hadvance =>
    cases hstep
    obtain ⟨hi, rfl⟩ := List.getElem?_eq_some_iff.mp hx
    have hbefore := paths_perm (List.getElem_cons_eraseIdx_perm hi).symm
    have hafter := paths_perm (w := { w with store := f'.store, active := w.active.set i x' })
      (List.set_perm_cons_eraseIdx hi x')
    obtain ⟨hkey, hcase⟩ := Forecaster.advance_ok (h.graph hbefore f) hadvance
    rw [hkey] at hafter
    rcases hcase with ⟨hstore, rfl⟩ | ⟨g, hstore, hrecorded⟩
    -- The batch was refused.
    · rw [hstore, List.set_getElem_self]
      exact h
    · exact h.change [w.active[i].path] [x'.path] false hbefore hafter (fun _ => by simp [finished])
        (hstore ▸ GraphStore.get?_set_self ..) (fun k' hk => hstore ▸ GraphStore.get?_set_ne _ _ hk)
        hrecorded

/-- A forecast that is closed hands its path over to the records, complete or not. -/
theorem Sound.close (h : w.Sound) {f : Forecaster R} {i : Nat} {committed : Bool}
    (hstep : w.step (.close f i committed) = .ok w') : w'.Sound := by
  rw [step] at hstep
  split at hstep
  · cases hstep
    exact h
  case h_2 x hx =>
  dsimp only at hstep
  split at hstep
  · cases hstep
  case h_2 f' drifted hclose =>
    cases hstep
    -- The path leaves those that are open, and comes back among those that have ended.
    obtain ⟨hi, rfl⟩ := List.getElem?_eq_some_iff.mp hx
    have hbefore := paths_perm (List.getElem_cons_eraseIdx_perm hi).symm
    obtain ⟨g, hstore, hrecorded⟩ := Forecaster.close_ok (h.graph hbefore f) hclose
    exact h.change [w.active[i].path] [_] true hbefore (paths_ended ⟨_, _, true⟩ rfl rfl)
      (finished_ended ⟨_, _, true⟩ rfl) (hstore ▸ GraphStore.get?_set_self ..)
      (fun k' hk => hstore ▸ GraphStore.get?_set_ne _ _ hk) hrecorded

/-- A trace that is replayed is recorded at once. If it is rejected, its path stays in the records
as incomplete. -/
theorem Sound.replay (h : w.Sound) {k : GraphKey} {partitions : Nat} {t : Trace} {p : Procedure}
    {r : Router} (hstep : w.step (.replay k partitions t p r) = .ok w') : w'.Sound := by
  rw [step] at hstep
  have hgraph := (h k).getOrCreate partitions
  have hother : ∀ k', k ≠ k' →
      (w.store.getOrCreate k partitions).1.get? k' = w.store.get? k' := fun k' hk =>
    get?_getOrCreate_ne hk
  generalize w.store.getOrCreate k partitions = made at hstep hgraph hother
  dsimp only at hstep
  split at hstep
  · cases hstep
  case h_2 g' result hreplay =>
    cases hstep
    exact h.change [] [_] result.isOk (u := w) (fun _ => by simp) (paths_ended ⟨k, _, _⟩ rfl rfl)
      (finished_ended ⟨k, _, _⟩ rfl) (GraphStore.get?_set_self ..)
      (fun k' hk => (GraphStore.get?_set_ne _ _ hk).trans (hother k' hk)) (hgraph.replay hreplay).1

/-- Recomputing a graph records nothing. If there is no graph under the key then nothing is done. -/
theorem Sound.recompute (h : w.Sound) {k : GraphKey} (hstep : w.step (.recompute k) = .ok w') :
    w'.Sound := by
  obtain ⟨store, hstore, rfl⟩ := Outcome.map_ok hstep
  rw [GraphStore.recompute] at hstore
  have hk := h k
  split at hstore
  · cases hstore
    exact h
  case h_2 g hget =>
    rw [hget] at hk
    obtain ⟨g', hrecompute, hrecorded⟩ := Graph.Recorded.recompute hk
    rw [hrecompute] at hstore
    cases hstore
    exact h.change [] [] false (u := w) (fun _ => by simp) (fun _ => by simp [paths])
      (fun _ => by simp [finished]) (GraphStore.get?_set_self ..)
      (fun k' hk => GraphStore.get?_set_ne _ _ hk) hrecorded

/-- No event breaks the tie between graphs and paths. -/
theorem Sound.step (h : w.Sound) {e : Event R} (hstep : w.step e = .ok w') : w'.Sound := by
  cases e with
  | start f txn procedure args => exact h.start hstep
  | advance f i queries => exact h.advance hstep
  | close f i committed => exact h.close hstep
  | replay k partitions t p r => exact h.replay hstep
  | recompute k => exact h.recompute hstep

/-- So after any sequence of events the graphs hold the paths of the forecasts and of the records.
-/
theorem Sound.run {events : List (Event R)} (h : w.Sound) (hrun : w.run events = .ok w') :
    w'.Sound := by
  induction events generalizing w with
  | nil =>
    cases hrun
    exact h
  | cons e events ih =>
    obtain ⟨w₁, hstep, hrest⟩ := Outcome.foldlM_cons_ok hrun
    exact ih (h.step hstep) hrest

/-- After any sequence of events from the start, the counters of every graph are those of the paths
under its key, open and ended, whichever transactions they belong to and however their events were
mixed. Where there is no graph, there is no path either. -/
theorem run_counts {events : List (Event R)} (hrun : empty.run events = .ok w) (k : GraphKey) :
    (∀ g, w.store.get? k = some g → g.Counts (w.paths k) (w.finished k))
      ∧ (w.store.get? k = none → w.paths k = []) := by
  have hk := sound_empty.run hrun k
  constructor
  · intro g hget
    rw [hget] at hk
    exact Graph.Recorded.counts hk
  · intro hget
    rw [hget] at hk
    exact hk.1

/-- Two transactions of one procedure that overlap. The graph is recomputed and two traces are
replayed into it while both are open. The second transaction aborts in its write, and so does not
reach COMMIT when it is closed as committed. The second trace breaks off at an unknown statement. -/
def overlapping : List (Event Rat) :=
  let p : Procedure :=
    ⟨0, "transfer", [], [⟨0, "read", .select, [], []⟩, ⟨1, "write", .update, [], []⟩], false, true,
      none⟩
  let r : Router := ⟨1, fun _ _ => .ok 0, fun _ _ _ _ => .ok (.singleton 0)⟩
  let f : Forecaster Rat := .new ⟨1, [], [p]⟩ r ∅ .default ∅
  let query : StatementId → Bool → Query := fun statement aborted =>
    ⟨statement, [], 0, aborted, none⟩
  [.start f 1 0 [], .start f 2 0 [], .advance f 0 [query 0 false], .recompute ⟨0, 0⟩,
    .advance f 1 [query 0 false, query 1 true],
    .replay ⟨0, 0⟩ 1 ⟨3, 0, [], [query 0 false], false⟩ p r,
    .close f 1 true, .replay ⟨0, 0⟩ 1 ⟨4, 0, [], [query 0 false, query 9 false], false⟩ p r,
    .advance f 0 [query 1 false], .recompute ⟨0, 0⟩]

/-- One path is open at its write. Of the three that have ended, one reached ABORT, one COMMIT, and
one was broken off and does not count as a transaction. -/
theorem run_counts_overlapping :
    ∃ w g, empty.run overlapping = .ok w ∧ w.store.get? ⟨0, 0⟩ = some g
      ∧ w.paths ⟨0, 0⟩ = [[0, 3, 4], [0, 3, 1], [0, 3, 4, 2], [0, 3]] ∧ w.finished ⟨0, 0⟩ = 2
      ∧ g.Counts [[0, 3, 4], [0, 3, 1], [0, 3, 4, 2], [0, 3]] 2 := by
  have hresult : (empty.run overlapping).toOption.map
      (fun w => (w.paths ⟨0, 0⟩, w.finished ⟨0, 0⟩, (w.store.get? ⟨0, 0⟩).isSome))
      = some ([[0, 3, 4], [0, 3, 1], [0, 3, 4, 2], [0, 3]], 2, true) := by
    decide +kernel
  cases hrun : empty.run overlapping with
  | error e =>
    rw [hrun] at hresult
    cases hresult
  | ok w =>
    rw [hrun] at hresult
    obtain ⟨hpaths, hrest⟩ := Prod.mk.inj (Option.some.inj hresult)
    obtain ⟨hfinished, hisSome⟩ := Prod.mk.inj hrest
    -- There is a graph under the key, and its counters are those of the four paths.
    obtain ⟨g, hget⟩ := Option.isSome_iff_exists.mp hisSome
    have hcounts := (run_counts hrun ⟨0, 0⟩).1 g hget
    rw [hpaths, hfinished] at hcounts
    exact ⟨w, g, rfl, hget, hpaths, hfinished, hcounts⟩

end Traffic

end TxnPath
