import TxnPath.Proofs.Forecast.Training
import TxnPath.Proofs.Graph.Sealed

/-!
# `TxnPath.Proofs.Forecast.Upkeep`: an open forecast can always be closed

Closing a forecast leads its path on from where it stands, in the graph of its key, and may
recompute this graph. `Forecaster.Minds` is what makes both possible: every graph is sealed, so that it can be
recomputed (`GraphStore.Sealed`), and every open forecast stands at a vertex of its graph
(`GraphStore.Holds`). The pools are in order, so that estimates can be put back.

Whatever a forecaster does keeps this up for all open forecasts: it starts one (`Minds.start`),
advances one (`Minds.advance`), closes or gives up one (`Minds.close_total`, `Minds.discard`),
learns traces (`Minds.train`) or recomputes graphs (`Minds.recomputeAll`). For the forecasts that it does
not work on this is so because no graph is lost or loses vertices (`GraphStore.Grows`).
-/

set_option autoImplicit false

namespace TxnPath

variable {R : Type}

/-- Where a forecast stands is the end of its path. -/
theorem Forecast.current_congr {x y : Forecast R} (h : x.path = y.path) : x.current = y.current :=
  Option.some.inj (by rw [← x.getLast?_path, ← y.getLast?_path, h])

/-! ### Graphs in which forecasts stand -/

namespace GraphStore

variable {s s' s'' : GraphStore R} {x : Forecast R} {k : GraphKey} {g : Graph R} {t : Sentinels}

/-- Every graph is sealed. -/
def Sealed (s : GraphStore R) : Prop := ∀ k g, s.get? k = some g → ∃ t, g.Sealed t

/-- A forecast has its graph, and stands at a vertex of it. -/
def Holds (s : GraphStore R) (x : Forecast R) : Prop :=
  ∃ g, s.get? x.key = some g ∧ x.current < g.vertices.size

/-- Every graph of the first store has grown into one of the second. -/
def Grows (s s' : GraphStore R) : Prop :=
  ∀ k g, s.get? k = some g → ∃ g', s'.get? k = some g' ∧ g.Grows g'

/-- No graph is lost by doing nothing. -/
theorem Grows.refl (s : GraphStore R) : s.Grows s := fun _ g hget => ⟨g, hget, .refl g⟩

/-- Nor by two changes that each lose none. -/
theorem Grows.trans (h : s.Grows s') (h' : s'.Grows s'') : s.Grows s'' := by
  intro k g hget
  obtain ⟨g', hget', hgrows⟩ := h k g hget
  obtain ⟨g'', hget'', hgrows'⟩ := h' k g' hget'
  exact ⟨g'', hget'', hgrows.trans hgrows'⟩

/-- A forecast keeps its place where graphs grow. -/
theorem Holds.grows (h : s.Holds x) (hgrows : s.Grows s') : s'.Holds x := by
  obtain ⟨g, hget, hlt⟩ := h
  obtain ⟨g', hget', hgrown⟩ := hgrows x.key g hget
  exact ⟨g', hget', Nat.lt_of_lt_of_le hlt hgrown.size⟩

/-- A store without graphs is sealed. -/
theorem sealed_empty : (∅ : GraphStore R).Sealed := by
  intro k g hget
  rw [show (∅ : GraphStore R).get? k = none from Std.ExtTreeMap.getElem?_empty] at hget
  cases hget

/-- It stays so when a sealed graph is put in. -/
theorem Sealed.set (h : s.Sealed) (hg : g.Sealed t) : (s.set k g).Sealed := by
  intro k' g' hget
  by_cases hk : k = k'
  · rw [← hk, get?_set_self] at hget
    exact Option.some.inj hget ▸ ⟨t, hg⟩
  · rw [get?_set_ne _ _ hk] at hget
    exact h k' g' hget

/-- A store grows with one of its graphs, or with one under a new key. -/
theorem grows_set (hg : ∀ g₀ ∈ s.get? k, g₀.Grows g) : s.Grows (s.set k g) := by
  intro k' g₀ hget
  by_cases hk : k = k'
  · subst hk
    exact ⟨g, get?_set_self .., hg g₀ hget⟩
  · exact ⟨g₀, (get?_set_ne _ _ hk).trans hget, .refl g₀⟩

/-- Putting a graph in the place of one that it has grown from loses nothing. -/
theorem grows_set_of_get? {g₀ : Graph R} (hget : s.get? k = some g₀) (hgrows : g₀.Grows g) :
    s.Grows (s.set k g) :=
  grows_set fun _ hg₀ => Option.some.inj (hget.symm.trans hg₀) ▸ hgrows

/-- A graph is asked for, and made if there is none. -/
theorem Sealed.getOrCreate (h : s.Sealed) (k : GraphKey) (m : Nat) :
    (s.getOrCreate k m).1.Sealed ∧ s.Grows (s.getOrCreate k m).1
      ∧ ∃ t, (s.getOrCreate k m).2.Sealed t := by
  rw [GraphStore.getOrCreate]
  cases hget : s.get? k with
  | some g => exact ⟨h, .refl s, h k g hget⟩
  | none =>
    have hfresh := Graph.sealed_fresh (R := R) k.procedure k.base m
    refine ⟨h.set hfresh, grows_set fun g₀ hg₀ => ?_, _, hfresh⟩
    rw [hget] at hg₀
    cases hg₀

variable [Scalar R]

/-! ### Learning -/

variable {c : Catalog} {r : Router}

/-- From one store to the next graphs grow, and stay sealed if they have been. -/
def Learns (s s' : GraphStore R) : Prop := s.Sealed → s'.Sealed ∧ s.Grows s'

omit [Scalar R] in
/-- Doing nothing is learning nothing. -/
theorem Learns.refl (s : GraphStore R) : s.Learns s := fun h => ⟨h, .refl s⟩

omit [Scalar R] in
/-- What is learned in two steps is learned. -/
theorem Learns.trans (h : s.Learns s') (h' : s'.Learns s'') : s.Learns s'' := by
  intro hsealed
  obtain ⟨hsealed', hgrows⟩ := h hsealed
  obtain ⟨hsealed'', hgrows'⟩ := h' hsealed'
  exact ⟨hsealed'', hgrows.trans hgrows'⟩

/-- Replaying a trace learns it, in the graph of its key, which may be a fresh one. It learns as
much of a rejected trace as was recorded. -/
theorem learns_replay {trace : Trace} {result : Except Error GraphKey}
    (hrun : s.replay c r trace = .ok (s', result)) : s.Learns s' := by
  intro h
  rw [GraphStore.replay] at hrun
  split at hrun
  · cases hrun
    exact ⟨h, .refl s⟩
  case h_2 p k _ =>
  obtain ⟨hmade, hgrown, t, hsealed⟩ := h.getOrCreate k c.partitions
  have hget := Traffic.get?_getOrCreate_self s k c.partitions
  generalize s.getOrCreate k c.partitions = made at hrun hmade hgrown hsealed hget
  -- The graph grows also where the trace is broken off.
  have hset : ∀ {g' : Graph R} {answer : Except Error (List Nat)},
      made.2.replay trace p r = .ok (g', answer) →
        (made.1.set k g').Sealed ∧ s.Grows (made.1.set k g') := by
    intro g' answer hreplay
    obtain ⟨hsealed', hgrows⟩ := hsealed.replay hreplay
    exact ⟨hmade.set hsealed', hgrown.trans (grows_set_of_get? hget hgrows)⟩
  dsimp only at hrun
  split at hrun
  · cases hrun
  all_goals
    cases hrun
    exact hset ‹_›

/-- So does replaying several, up to the first that is rejected. What a rejected trace leaves behind
has been learnt, too. -/
theorem learns_replayAll {traces : List Trace} {result : Except Error (List GraphKey)}
    (hrun : replayAll c r s traces = .ok (s', result)) : s.Learns s' := by
  induction traces generalizing s result with
  | nil =>
    cases hrun
    exact .refl _
  | cons trace rest ih =>
    rw [GraphStore.replayAll] at hrun
    split at hrun
    · cases hrun
    case h_2 hreplay =>
      cases hrun
      exact learns_replay hreplay
    case h_3 hreplay =>
      split at hrun
      · cases hrun
      -- The trace was accepted, and the store has learnt from it already.
      all_goals
        cases hrun
        exact (learns_replay hreplay).trans (ih ‹_›)

/-- Recomputing a graph keeps it sealed, and keeps its vertices. -/
theorem learns_recompute (hrun : s.recompute k = .ok s') : s.Learns s' := by
  intro h
  rw [GraphStore.recompute] at hrun
  split at hrun
  · cases hrun
    exact ⟨h, .refl s⟩
  case h_2 g hget =>
    obtain ⟨g', hrecompute, rfl⟩ := Outcome.map_ok hrun
    obtain ⟨t, hsealed⟩ := h k g hget
    obtain ⟨g₁, hrecompute₁, hsealed', hgrows⟩ := hsealed.recompute
    obtain rfl := Except.ok.inj (hrecompute.symm.trans hrecompute₁)
    exact ⟨h.set hsealed', grows_set_of_get? hget hgrows⟩

/-- So does recomputing several, one after the other. -/
theorem learns_recomputeEach {ks : List GraphKey}
    (hrun : ks.foldlM GraphStore.recompute s = .ok s') : s.Learns s' :=
  Outcome.foldlM_rel Learns .refl .trans learns_recompute hrun

/-- And so does training as a whole, where graphs are recomputed once the traces have been replayed.
-/
theorem learns_train {traces : List Trace} {result : Except Error Nat}
    (hrun : s.train c r traces = .ok (s', result)) : s.Learns s' := by
  rw [GraphStore.train] at hrun
  split at hrun
  · cases hrun
  case h_2 hreplay =>
    cases hrun
    exact learns_replayAll hreplay
  case h_3 hreplay =>
    obtain ⟨s₁, hfold, hrun⟩ := Outcome.map_ok hrun
    cases hrun
    exact (learns_replayAll hreplay).trans (learns_recomputeEach hfold)

end GraphStore

/-! ### Forecasters -/

namespace Forecaster

variable [Scalar R] {f f' : Forecaster R} {x x' : Forecast R} {xs ys : List (Forecast R)}
  {g g' : Graph R} {s : Sentinels}

/-- What a forecaster keeps up for its open forecasts. With it no request fails for want of a graph,
of a vertex, or of something idle. -/
structure Minds (f : Forecaster R) (xs : List (Forecast R)) : Prop where
  /-- Nothing that is idle is in use, so that it can be set up anew. -/
  rested : f.Rested
  /-- Every graph has its sentinels, and no edge leaves COMMIT or ABORT. -/
  sealed : f.store.Sealed
  /-- Every open forecast finds its graph, and its vertex there. -/
  holds : ∀ x ∈ xs, f.store.Holds x

omit [Scalar R] in
/-- The order in which open forecasts are listed does not matter. -/
theorem Minds.perm (h : f.Minds xs) (hperm : xs.Perm ys) : f.Minds ys :=
  ⟨h.rested, h.sealed, fun x hx => h.holds x (hperm.mem_iff.mpr hx)⟩

omit [Scalar R] in
/-- A new forecaster has no open forecasts to mind; all that it takes are sealed graphs. -/
theorem minds_new {store : GraphStore R} (h : store.Sealed) (catalog : Catalog) (router : Router)
    (mappings : MappingTable R) (config : Config R) :
    (new catalog router mappings config store).Minds [] :=
  ⟨rested_new catalog router mappings config store, h, nofun⟩

/-! ### The pools -/

/-- Taking a walker and an estimate out leaves the pools in order. -/
theorem Rested.of_borrow {w : Walker R} {idle : Estimate R} (h : f.Rested)
    (hrun : f.borrow = .ok (f', w, idle)) : f'.Rested := by
  obtain ⟨f₁, w₁, idle₁, hborrow, hhandled, _⟩ := h.borrow
  cases hborrow.symm.trans hrun
  exact hhandled.rested

/-- A walker that is put back has finished, so that it is out of use. -/
theorem Rested.of_returnWalker {w : Walker R} (h : f.Rested) (hrun : f.returnWalker w = .ok f') :
    f'.Rested := by
  obtain ⟨f₁, hreturn, hhandled, _⟩ := h.returnWalker w
  cases hreturn.symm.trans hrun
  exact hhandled.rested

omit [Scalar R] in
/-- So have the estimates that are put back. -/
theorem Rested.of_returnEstimates {es : List (Estimate R)} (h : f.Rested)
    (hrun : f.returnEstimates es = .ok f') : f'.Rested := by
  obtain ⟨f₁, hreturn, hhandled, _⟩ := h.returnEstimates es
  cases hreturn.symm.trans hrun
  exact hhandled.rested

/-- Starting a forecast leaves the pools in order, whether it succeeds or not. The walker comes
back, and the estimate stays with the forecast. -/
theorem Rested.of_start {txn : TxnId} {procedure : ProcedureId} {args : List Value}
    {result : Except Error (Forecast R)} (h : f.Rested)
    (hrun : f.start txn procedure args = .ok (f', result)) : f'.Rested := by
  rw [start] at hrun
  split at hrun
  · cases hrun
    exact h
  · split at hrun
    · cases hrun
      exact h
    · obtain ⟨⟨f₁, w, idle⟩, hborrow, hrun⟩ := Outcome.bind_ok hrun
      obtain ⟨_, _, hrun⟩ := Outcome.bind_ok hrun
      obtain ⟨_, _, hrun⟩ := Outcome.bind_ok hrun
      obtain ⟨f₂, hreturn, hrun⟩ := Outcome.bind_ok hrun
      cases hrun
      exact (Rested.of_borrow (h.setStore _).rested hborrow).of_returnWalker hreturn

/-- So does the end of a batch, where a new estimate is made or a rejected batch is answered. In the
second case the estimate that was borrowed goes back unused. -/
theorem Rested.of_endBatch {w : Walker R} {idle : Estimate R} {p : Procedure}
    {stop : Except Error Unit} {result : Except Error (Estimate R)} (h : f.Rested)
    (hrun : f.endBatch w idle p g x stop = .ok (f', x', result)) : f'.Rested := by
  have hset := (h.setStore (f.store.set x.key g)).rested
  cases stop with
  | error e =>
    obtain ⟨f₁, hestimates, hrun⟩ := Outcome.bind_ok hrun
    obtain ⟨f₂, hwalker, hrun⟩ := Outcome.bind_ok hrun
    cases hrun
    exact (hset.of_returnEstimates hestimates).of_returnWalker hwalker
  | ok _ =>
    obtain ⟨_, _, hrun⟩ := Outcome.bind_ok hrun
    obtain ⟨f₁, hwalker, hrun⟩ := Outcome.bind_ok hrun
    cases hrun
    exact hset.of_returnWalker hwalker

/-! ### What a forecaster does for one forecast -/

omit [Scalar R] in
/-- One graph grows, and the forecast that is worked on stands at a vertex of it. -/
theorem Minds.set (h : f.Minds xs) {k : GraphKey} (hrested : f'.Rested)
    (hstore : f'.store = f.store.set k g') (hget : f.store.get? k = some g) (hg' : g'.Sealed s)
    (hgrows : g.Grows g')
    (hys : ∀ y ∈ ys, y ∈ xs ∨ y.key = k ∧ y.current < g'.vertices.size) : f'.Minds ys where
  rested := hrested
  sealed := hstore ▸ h.sealed.set hg'
  holds y hy := by
    rw [hstore]
    rcases hys y hy with hold | ⟨rfl, hlt⟩
    · exact (h.holds y hold).grows (GraphStore.grows_set_of_get? hget hgrows)
    · exact ⟨g', GraphStore.get?_set_self .., hlt⟩

/-- A forecast that starts stands at START of its graph. The graph may have been created for it, in
which case the other forecasts keep theirs. -/
theorem Minds.start {txn : TxnId} {procedure : ProcedureId} {args : List Value}
    {result : Except Error (Forecast R)} (h : f.Minds xs)
    (hrun : f.start txn procedure args = .ok (f', result)) :
    f'.Minds (result.toOption.toList ++ xs) := by
  have hrested := h.rested.of_start hrun
  rcases start_ok hrun with ⟨⟨e, rfl⟩, rfl⟩ | ⟨x, s, rfl, hstore, hplaced, hpath⟩
  · exact ⟨hrested, h.sealed, h.holds⟩
  obtain ⟨hmade, hgrown, t, hsealed⟩ := h.sealed.getOrCreate x.key f.catalog.partitions
  -- The sentinels that `start` has looked up are those of the sealed graph.
  obtain rfl := Option.some.inj (hplaced.symm.trans hsealed.initialized.placed)
  refine ⟨hrested, hstore ▸ hmade, fun y hy => ?_⟩
  rw [hstore]
  rcases List.mem_cons.mp hy with rfl | hold
  · refine ⟨_, Traffic.get?_getOrCreate_self .., ?_⟩
    rw [Forecast.current_of_path hpath]
    exact Graph.lt_size hsealed.initialized.start
  · exact (h.holds y hold).grows hgrown

/-- A batch leads its forecast on in a graph, as far as its queries can be recorded. That the graph
has only grown is for the other forecasts, which stand at vertices of it as before. -/
theorem record_sealed {p : Procedure} {r : Router} {qs : List Query} {result : Except Error Unit}
    (h : g.Sealed s) (hlt : x.current < g.vertices.size)
    (hopen : g.isTerminal x.current = false ∨ qs = [])
    (hrun : record p r g x qs = .ok (g', x', result)) :
    g'.Sealed s ∧ g.Grows g' ∧ x'.key = x.key ∧ x'.current < g'.vertices.size := by
  induction qs generalizing g x with
  | nil =>
    cases hrun
    exact ⟨h, .refl _, rfl, hlt⟩
  | cons q qs ih =>
    have hinner := hopen.resolve_right (List.cons_ne_nil q qs)
    rw [record] at hrun
    split at hrun
    · cases hrun
    · cases hrun
      exact ⟨h, .refl _, rfl, hlt⟩
    case h_3 g₁ step called hobserve =>
    obtain ⟨hstep, hgrows, hleads⟩ := h.observe hinner hobserve
    dsimp only at hrun
    split at hrun
    · cases hrun
    case h_2 touched _ =>
    -- The forecast that goes on, or stops here at ABORT.
    let y := { x with visited := x.visited ++ step.path, called := called, touched := touched }
    have hcurrent : y.current = step.last := by
      cases hstop : step.abort <;> simp [y, Forecast.current, Step.path, Step.last, hstop]
    have hlast : y.current < g₁.vertices.size := hcurrent ▸ hleads.last
    split at hrun
    · cases hrun
      exact ⟨hstep, hgrows, rfl, hlast⟩
    case isFalse hnone =>
      have hnone : step.abort = none := Option.not_isSome_iff_eq_none.mp hnone
      have hinner' : g₁.isTerminal y.current = false := by
        rw [hcurrent, Step.last, hnone]
        exact hleads.inner
      obtain ⟨hall, hgrown, hkey, hend⟩ := ih (x := y) hstep hlast (.inl hinner') hrun
      exact ⟨hall, hgrows.trans hgrown, hkey, hend⟩

omit [Scalar R] in
/-- The graph of an open forecast. -/
theorem Minds.graph (h : f.Minds xs) (hx : x ∈ xs) :
    ∃ t, (f.graph x.key).Sealed t ∧ x.current < (f.graph x.key).vertices.size
      ∧ f.store.get? x.key = some (f.graph x.key) := by
  obtain ⟨g, hget, hlt⟩ := h.holds x hx
  obtain ⟨t, hsealed⟩ := h.sealed x.key g hget
  rw [graph_eq hget]
  exact ⟨t, hsealed, hlt, hget⟩

/-- A batch leads its forecast on. It does so in one graph: forecasts in other graphs do not notice,
and those in the same graph stand at vertices that are still there. -/
theorem Minds.advance {qs : List Query} {result : Except Error (Estimate R)}
    (h : f.Minds (x :: xs)) (hrun : f.advance x qs = .ok (f', x', result)) :
    f'.Minds (x' :: xs) := by
  rcases advance_cases hrun with ⟨rfl, rfl, _⟩ | ⟨p, f₁, w, idle, g, y, stop, hborrow, hend, hrecord⟩
  · exact h
  obtain ⟨t, hsealed, hlt, hget⟩ := h.graph List.mem_cons_self
  obtain ⟨walkers, estimates, hf₁⟩ := borrow_ok hborrow
  have hrested := (h.rested.of_borrow hborrow).of_endBatch hend
  have hgraph : f₁.graph x.key = f.graph x.key := by
    rw [hf₁]
    rfl
  rw [hgraph] at hrecord
  -- The forecast has moved on in its own graph, as far as its batch was recorded. The other
  -- forecasts stand where they stood, in graphs that have only grown.
  have hbatch : g.Sealed t ∧ (f.graph x.key).Grows g ∧ y.key = x.key
      ∧ y.current < g.vertices.size := by
    rcases hrecord with ⟨rfl, rfl⟩ | ⟨hopen, hrecord⟩
    · exact ⟨hsealed, .refl _, rfl, hlt⟩
    · exact record_sealed hsealed hlt hopen hrecord
  obtain ⟨hg, hgrows, hkey, hcurrent⟩ := hbatch
  obtain ⟨hstore, hpath, hsame⟩ := endBatch_ok hend
  rw [hkey, hf₁] at hstore
  refine h.set hrested hstore hget hg hgrows fun z hz => ?_
  rcases List.mem_cons.mp hz with rfl | hold
  · rw [Forecast.current_congr hpath]
    exact .inr ⟨hsame.trans hkey, hcurrent⟩
  · exact .inl (List.mem_cons_of_mem _ hold)

omit [Scalar R] in
/-- A forecast that nobody closes leaves its path behind. -/
theorem Minds.drop (h : f.Minds (x :: xs)) : f.Minds xs :=
  ⟨h.rested, h.sealed, fun y hy => h.holds y (List.mem_cons_of_mem _ hy)⟩

omit [Scalar R] in
/-- A forecast that is given up leaves its path behind. -/
theorem Minds.discard (h : f.Minds (x :: xs)) (hrun : f.discard x = .ok f') : f'.Minds xs := by
  have hstore := returnEstimates_store hrun
  refine ⟨h.rested.of_returnEstimates hrun, hstore ▸ h.sealed, fun y hy => ?_⟩
  rw [hstore]
  exact h.drop.holds y hy

/-- A transaction is counted, and its graph recomputed if it has drifted. -/
theorem endClose_sealed (hf : f.Rested) (h : g.Sealed s) :
    ∃ f' drifted g', f.endClose x g = .ok (f', drifted) ∧ f'.Rested
      ∧ f'.store = f.store.set x.key g' ∧ g'.Sealed s ∧ g.Grows g' := by
  have hcounted : g.Grows g.recordTxn := ⟨Nat.le_refl _, fun _ => rfl⟩
  obtain ⟨g₁, hrecompute, hsealed, hgrows⟩ := h.recordTxn.recompute
  obtain ⟨f', drifted, hend, hrested⟩ := endClose_total (x := x) hf hrecompute
  obtain ⟨g', hstore, rfl | hrun⟩ := endClose_cases hend
  · exact ⟨f', drifted, _, hend, hrested, hstore, h.recordTxn, hcounted⟩
  · cases hrecompute.symm.trans hrun
    exact ⟨f', drifted, g₁, hend, hrested, hstore, hsealed, hcounted.trans hgrows⟩

/-- An open forecast can be closed, either way, and the others stay open. Nothing can stop this: the
sentinels are there, the forecast stands at a vertex of its graph, and the graph is one that can be
recomputed. -/
theorem Minds.close_total (h : f.Minds (x :: xs)) (committed : Bool) :
    ∃ f' drifted, f.close x committed = .ok (f', drifted) ∧ f'.Minds xs := by
  obtain ⟨t, hsealed, hlt, hget⟩ := h.graph List.mem_cons_self
  rw [close, Outcome.bind_of_ok hsealed.initialized.requireSentinels_eq]
  -- A query that aborted has led the path to its end already, and nothing is linked.
  cases hinner : (f.graph x.key).isTerminal x.current with
  | true =>
    obtain ⟨f', drifted, g', hend, hrested, hstore, hg', hgrows⟩ :=
      endClose_sealed (x := x) h.rested hsealed
    exact ⟨f', drifted, hend, h.set hrested hstore hget hg' hgrows
      fun y hy => .inl (List.mem_cons_of_mem _ hy)⟩
  | false =>
    have hterminal : (if committed then t.commit else t.abort) < (f.graph x.key).vertices.size := by
      split
      · exact Graph.lt_size hsealed.initialized.commit
      · exact Graph.lt_size hsealed.initialized.abort
    have hlink : (f.graph x.key).link? x.current (if committed then t.commit else t.abort)
        = .ok ((f.graph x.key).link x.current (if committed then t.commit else t.abort)) := by
      rw [Graph.link?, if_pos ⟨hlt, hterminal⟩]
    have hgrown := Graph.grows_link (f.graph x.key) x.current
      (if committed then t.commit else t.abort)
    obtain ⟨f', drifted, g', hend, hrested, hstore, hg', hgrows⟩ :=
      endClose_sealed (x := x) h.rested (hsealed.link hinner hlt hterminal)
    exact ⟨f', drifted, (Outcome.bind_of_ok hlink).trans hend,
      h.set hrested hstore hget hg' (hgrown.trans hgrows)
        fun y hy => .inl (List.mem_cons_of_mem _ hy)⟩

/-! ### Learning -/

omit [Scalar R] in
/-- Graphs that have learned keep the open forecasts. -/
theorem Minds.learns {store : GraphStore R} (h : f.Minds xs) (hlearns : f.store.Learns store) :
    Forecaster.Minds { f with store := store } xs := by
  obtain ⟨hsealed, hgrows⟩ := hlearns h.sealed
  exact ⟨(h.rested.setStore store).rested, hsealed, fun x hx => (h.holds x hx).grows hgrows⟩

/-- Training keeps the open forecasts minded, as it only learns. -/
theorem Minds.train {traces : List Trace} {result : Except Error Nat} (h : f.Minds xs)
    (hrun : f.train traces = .ok (f', result)) : f'.Minds xs := by
  obtain ⟨⟨store, n⟩, htrain, hpair⟩ := Outcome.map_ok hrun
  cases hpair
  exact h.learns (GraphStore.learns_train htrain)

/-- So does recomputing all graphs. -/
theorem Minds.recomputeAll (h : f.Minds xs) (hrun : f.recomputeAll = .ok f') : f'.Minds xs := by
  obtain ⟨store, hstore, rfl⟩ := Outcome.map_ok hrun
  exact h.learns (GraphStore.learns_recomputeEach hstore)

end Forecaster

end TxnPath
