import TxnPath.Proofs.Forecast.Upkeep
import TxnPath.Proofs.Reuse

/-!
# `TxnPath.Proofs.Forecast.Reuse`: forecasts do not depend on the pools

A forecaster takes a walker and an estimate out of its pools for every walk, and puts them back when
it is done with them. Two forecasters that differ in their pools only, and whose pools hold finished
objects (`Forecaster.Twins`), go on giving the same forecasts and estimates, and keep the same graphs
(`Twins.respond`, one lemma per request before it). Whatever a forecaster has been asked so far, its
pools hold finished objects only, and so it goes on like one whose pools have never been used:
`Desk.reuse_leaks_nothing`, which says the same of the pooled objects by themselves.
-/

set_option autoImplicit false

namespace TxnPath

open Outcome (Agree)

variable {R : Type} [Scalar R]

namespace Forecaster

variable {f f' : Forecaster R} {x : Forecast R}

/-- What is idle has been finished. -/
structure Clean (f : Forecaster R) : Prop where
  walkers : ∀ w ∈ f.walkers.idle, w.Clean
  estimates : ∀ e ∈ f.estimates.idle, e.vertex = none

/-- Two forecasters differ in their pools only, and what is idle there has been finished. How much
is idle, and what it was used for, may be different. -/
structure Twins (f f' : Forecaster R) : Prop where
  catalog : f'.catalog = f.catalog
  router : f'.router = f.router
  mappings : f'.mappings = f.mappings
  config : f'.config = f.config
  store : f'.store = f.store
  clean : f.Clean
  clean' : f'.Clean

omit [Scalar R] in
/-- The pools of a new forecaster hold nothing that could be left over. -/
theorem clean_new (catalog : Catalog) (router : Router) (mappings : MappingTable R)
    (config : Config R) (store : GraphStore R) : (new catalog router mappings config store).Clean :=
  ⟨nofun, nofun⟩

omit [Scalar R] in
/-- A clean forecaster is a twin of itself. -/
theorem Clean.twins (h : f.Clean) : f.Twins f := ⟨rfl, rfl, rfl, rfl, rfl, h, h⟩

/-- The same forecaster with pools that have never been used. -/
def renewed (f : Forecaster R) : Forecaster R :=
  new f.catalog f.router f.mappings f.config f.store

omit [Scalar R] in
/-- It is a twin of the one with unused pools. -/
theorem Clean.renewed (h : f.Clean) : f.Twins f.renewed :=
  ⟨rfl, rfl, rfl, rfl, rfl, h, clean_new ..⟩

omit [Scalar R] in
/-- Twins differ in their pools and in nothing else. -/
theorem Twins.exists_pools (h : f.Twins f') :
    ∃ walkers estimates, f' = { f with walkers := walkers, estimates := estimates } := by
  obtain ⟨catalog, router, mappings, config, store, walkers, estimates⟩ := f'
  cases h.catalog
  cases h.router
  cases h.mappings
  cases h.config
  cases h.store
  exact ⟨walkers, estimates, rfl⟩

omit [Scalar R] in
/-- They stay twins when both get the same graphs. -/
theorem Twins.setStore (h : f.Twins f') (store : GraphStore R) :
    Twins { f with store := store } { f' with store := store } :=
  ⟨h.catalog, h.router, h.mappings, h.config, rfl, ⟨h.clean.walkers, h.clean.estimates⟩,
    ⟨h.clean'.walkers, h.clean'.estimates⟩⟩

omit [Scalar R] in
/-- They have the same graphs. -/
theorem Twins.graph (h : f.Twins f') (k : GraphKey) : f'.graph k = f.graph k := by
  rw [Forecaster.graph, Forecaster.graph, h.store, h.catalog]

/-! ### What goes out of the pools, and what comes back -/

/-- Both can lend a walker and an estimate, and both are clean, if not the same. -/
theorem Twins.borrow (h : f.Twins f') :
    ∃ f₁ w e f₁' w' e', f.borrow = .ok (f₁, w, e) ∧ f'.borrow = .ok (f₁', w', e')
      ∧ f₁.Twins f₁' ∧ w.Clean ∧ w'.Clean := by
  obtain ⟨ws, es, w, e, hborrow, hw, hws, hes⟩ := borrow_total (fun _ hw => hw.isInitialized)
    Walker.clean_new h.clean.walkers h.clean.estimates
  obtain ⟨ws', es', w', e', hborrow', hw', hws', hes'⟩ := borrow_total
    (fun _ hw => hw.isInitialized) Walker.clean_new h.clean'.walkers h.clean'.estimates
  exact ⟨_, w, e, _, w', e', hborrow, hborrow', ⟨h.catalog, h.router, h.mappings, h.config, h.store,
    ⟨hws, hes⟩, ⟨hws', hes'⟩⟩, hw, hw'⟩

/-- Both take a walker back, and finish it. -/
theorem Twins.returnWalker (h : f.Twins f') (w w' : Walker R) :
    ∃ f₁ f₁', f.returnWalker w = .ok f₁ ∧ f'.returnWalker w' = .ok f₁' ∧ f₁.Twins f₁' := by
  obtain ⟨ws, hreturn, hws⟩ := returnWalker_total (fun _ hw => hw.isInitialized)
    Walker.clean_finish h.clean.walkers w
  obtain ⟨ws', hreturn', hws'⟩ := returnWalker_total (fun _ hw => hw.isInitialized)
    Walker.clean_finish h.clean'.walkers w'
  exact ⟨_, _, hreturn, hreturn', ⟨h.catalog, h.router, h.mappings, h.config, h.store,
    ⟨hws, h.clean.estimates⟩, ⟨hws', h.clean'.estimates⟩⟩⟩

omit [Scalar R] in
/-- Both take estimates back. -/
theorem Twins.returnEstimates (h : f.Twins f') (es es' : List (Estimate R)) :
    ∃ f₁ f₁', f.returnEstimates es = .ok f₁ ∧ f'.returnEstimates es' = .ok f₁' ∧ f₁.Twins f₁' := by
  obtain ⟨pool, hreturn, hpool⟩ := returnEstimates_total h.clean.estimates es
  obtain ⟨pool', hreturn', hpool'⟩ := returnEstimates_total h.clean'.estimates es'
  exact ⟨_, _, hreturn, hreturn', ⟨h.catalog, h.router, h.mappings, h.config, h.store,
    ⟨h.clean.walkers, hpool⟩, ⟨h.clean'.walkers, hpool'⟩⟩⟩

/-! ### What both do -/

/-- Both send out the walker that they took, and both come to the same walk. -/
theorem Twins.walk (h : f.Twins f') {w w' : Walker R} (hw : w.Clean) (hw' : w'.Clean)
    (g : Graph R) (p : Procedure) (args : List Value) (origin : Nat) :
    w'.traverse (f'.journey g p args) origin = w.traverse (f.journey g p args) origin := by
  obtain ⟨walkers, estimates, rfl⟩ := h.exists_pools
  rw [hw.traverse, hw'.traverse]
  rfl

/-- Both begin a transaction with the same forecast. They borrow different walkers and estimates,
all of them clean, and a walk reads nothing of a clean walker but that it is clean. -/
theorem Twins.start (h : f.Twins f') (txn : TxnId) (procedure : ProcedureId) (args : List Value) :
    Agree Twins (f.start txn procedure args) (f'.start txn procedure args) := by
  obtain ⟨walkers, estimates, rfl⟩ := h.exists_pools
  rw [Forecaster.start, Forecaster.start]
  dsimp only
  cases f.catalog.procedure procedure with
  | error e => exact .ok h _
  | ok p =>
    dsimp only
    cases f.router.base p args with
    | error e => exact .ok h _
    | ok base =>
      dsimp only
      -- The graph is the same for both; only the walkers differ.
      generalize f.store.getOrCreate ⟨base, procedure⟩ f.catalog.partitions = made
      obtain ⟨store, g⟩ := made
      obtain ⟨f₁, w, e, f₁', w', e', hborrow, hborrow', h₁, hw, hw'⟩ := (h.setStore store).borrow
      dsimp only at hborrow' ⊢
      rw [Outcome.bind_of_ok hborrow, Outcome.bind_of_ok hborrow']
      dsimp only
      cases g.requireSentinels with
      | error fault => exact .error fault
      | ok s =>
        dsimp only [bind, Except.bind]
        -- Clean walkers walk alike.
        rw [h₁.walk hw hw']
        cases w.traverse (f₁.journey g p args) s.start with
        | error fault => exact .error fault
        | ok w₁ =>
          obtain ⟨f₂, f₂', hreturn, hreturn', h₂⟩ := h₁.returnWalker w₁ w₁
          dsimp only
          rw [hreturn, hreturn']
          dsimp only
          rw [h₂.catalog]
          exact .ok h₂ _

/-- Both end a batch with the same estimate. The walker and the estimate that were borrowed for it
may differ, and need to be clean; after a rejected batch they are only put back. -/
theorem Twins.endBatch (h : f.Twins f') {w w' : Walker R} (hw : w.Clean) (hw' : w'.Clean)
    (e e' : Estimate R) (p : Procedure) (g : Graph R) (x : Forecast R) (stop : Except Error Unit) :
    Agree Twins (f.endBatch w e p g x stop) (f'.endBatch w' e' p g x stop) := by
  have hstored := h.setStore (f.store.set x.key g)
  rw [Forecaster.endBatch.eq_def, Forecaster.endBatch.eq_def, h.store]
  cases stop with
  -- Nothing is predicted after a rejected batch, and what was borrowed goes back.
  | error failure =>
    obtain ⟨f₁, f₁', hreturn, hreturn', h₁⟩ := hstored.returnEstimates [e] [e']
    obtain ⟨f₂, f₂', hdone, hdone', h₂⟩ := h₁.returnWalker w w'
    dsimp only
    rw [Outcome.bind_of_ok hreturn, Outcome.bind_of_ok hreturn', Outcome.bind_of_ok hdone,
      Outcome.bind_of_ok hdone']
    exact .ok h₂ _
  | ok _ =>
    dsimp only [bind, Except.bind]
    rw [hstored.walk hw hw']
    generalize w.traverse _ x.current = walked
    cases walked with
    | error fault => exact .error fault
    | ok w₁ =>
      obtain ⟨f₁, f₁', hreturn, hreturn', h₁⟩ := hstored.returnWalker w₁ w₁
      dsimp only
      rw [hreturn, hreturn']
      exact .ok h₁ _

/-- Both advance a forecast in the same way. A walker and an estimate are borrowed from either
pools; what is recorded comes before they are used, and what they are used for does not show where
they come from. -/
theorem Twins.advance (h : f.Twins f') (x : Forecast R) (queries : List Query) :
    Agree Twins (f.advance x queries) (f'.advance x queries) := by
  cases hp : f.catalog.procedure x.key.procedure with
  | error e =>
    rw [Forecaster.advance, Forecaster.advance, h.catalog, hp]
    exact .ok h _
  | ok p =>
    obtain ⟨f₁, w, e, f₁', w', e', hborrow, hborrow', h₁, hw, hw'⟩ := h.borrow
    rw [advance_of_borrow hp hborrow, advance_of_borrow (h.catalog ▸ hp) hborrow', h₁.router,
      h₁.graph]
    -- What is recorded does not depend on the pools.
    cases recordBatch p f₁.router (f₁.graph x.key) x queries with
    | error fault => exact .error fault
    | ok out => exact h₁.endBatch hw hw' e e' p out.1 out.2.1 out.2.2

/-- Both count a transaction, and find its graph drifted or not. Either way the estimates of the
forecast go back to the pools, of which one may have room and the other not. -/
theorem Twins.endClose (h : f.Twins f') (x : Forecast R) (g : Graph R) :
    Agree Twins (f.endClose x g) (f'.endClose x g) := by
  obtain ⟨walkers, estimates, rfl⟩ := h.exists_pools
  -- In either case all estimates of the forecast go back to the pools.
  have hdiscard : ∀ (g : Graph R) (drifted : Bool), Agree Twins
      (discard { f with store := f.store.set x.key g } x >>= fun f => pure (f, drifted))
      (discard { f with store := f.store.set x.key g, walkers := walkers, estimates := estimates } x
        >>= fun f => pure (f, drifted)) := by
    intro g drifted
    obtain ⟨f₁, f₁', hreturn, hreturn', h₁⟩ := (h.setStore (f.store.set x.key g)).returnEstimates
      (x.initial :: x.estimates) (x.initial :: x.estimates)
    rw [discard, discard, Outcome.bind_of_ok hreturn, Outcome.bind_of_ok hreturn']
    exact .ok h₁ _
  rw [Forecaster.endClose, Forecaster.endClose]
  dsimp only
  split
  · cases g.recordTxn.recompute with
    | error fault => exact .error fault
    | ok g₁ => exact hdiscard g₁ _
  · exact hdiscard g.recordTxn _

/-- Both close a forecast in the same way. -/
theorem Twins.close (h : f.Twins f') (x : Forecast R) (committed : Bool) :
    Agree Twins (f.close x committed) (f'.close x committed) := by
  rw [Forecaster.close, Forecaster.close, h.graph]
  cases (f.graph x.key).requireSentinels with
  | error fault => exact .error fault
  | ok s =>
    dsimp only [bind, Except.bind]
    split
    · exact h.endClose x (f.graph x.key)
    · cases (f.graph x.key).link? x.current (if committed then s.commit else s.abort) with
      | error fault => exact .error fault
      | ok linked => exact h.endClose x linked.1

end Forecaster

/-! ### A forecaster and its open forecasts -/

/-- A forecaster with its open forecasts. -/
structure Desk (R : Type) where
  forecaster : Forecaster R
  active : List (Forecast R)

namespace Desk

/-- What a forecaster can be asked. An open forecast is named by its position. -/
inductive Request where
  | start (txn : TxnId) (procedure : ProcedureId) (args : List Value)
  | advance (i : Nat) (queries : List Query)
  | close (i : Nat) (committed : Bool)
  | discard (i : Nat)
  | train (traces : List Trace)
  | recompute

/-- What a forecaster answers. -/
inductive Answer (R : Type) where
  | none
  | started (result : Except Error (Forecast R))
  | advanced (forecast : Forecast R) (result : Except Error (Estimate R))
  | closed (drifted : Bool)
  | trained (result : Except Error Nat)

variable {d d' : Desk R}

/-- What is done on a request. Nothing is done about a forecast that is not open. -/
def respond (d : Desk R) : Request → Except Fault (Desk R × Answer R)
  | .start txn procedure args => do
    let (f, result) ← d.forecaster.start txn procedure args
    pure (⟨f, d.active ++ result.toOption.toList⟩, .started result)
  | .advance i queries =>
    match d.active[i]? with
    | none => .ok (d, .none)
    | some x => do
      let (f, x, result) ← d.forecaster.advance x queries
      pure (⟨f, d.active.set i x⟩, .advanced x result)
  | .close i committed =>
    match d.active[i]? with
    | none => .ok (d, .none)
    | some x => do
      let (f, drifted) ← d.forecaster.close x committed
      pure (⟨f, d.active.eraseIdx i⟩, .closed drifted)
  | .discard i =>
    match d.active[i]? with
    | none => .ok (d, .none)
    | some x => do
      let f ← d.forecaster.discard x
      pure (⟨f, d.active.eraseIdx i⟩, .none)
  | .train traces => do
    let (f, result) ← d.forecaster.train traces
    pure (⟨f, d.active⟩, .trained result)
  | .recompute => do
    let f ← d.forecaster.recomputeAll
    pure (⟨f, d.active⟩, .none)

/-- The same forecasts are open, and the forecasters differ in their pools only, where what is idle
has been finished. -/
structure Twins (d d' : Desk R) : Prop where
  forecaster : d.forecaster.Twins d'.forecaster
  active : d'.active = d.active

/-- Desks that are twins answer every request alike and are twins again, with the same open
forecasts. -/
theorem Twins.respond (q : Request) (h : d.Twins d') :
    Agree Twins (d.respond q) (d'.respond q) := by
  obtain ⟨f, _⟩ := d
  obtain ⟨f', xs⟩ := d'
  obtain ⟨h, hactive⟩ := h
  dsimp only at h hactive
  subst hactive
  cases q with
  | start txn procedure args =>
    exact (h.start txn procedure args).bind fun result h₁ => .ok ⟨h₁, rfl⟩ _
  | advance i queries =>
    rw [Desk.respond, Desk.respond]
    cases xs[i]? with
    | none => exact .ok ⟨h, rfl⟩ _
    | some x => exact (h.advance x queries).bind fun out h₁ => .ok ⟨h₁, rfl⟩ _
  | close i committed =>
    rw [Desk.respond, Desk.respond]
    cases xs[i]? with
    | none => exact .ok ⟨h, rfl⟩ _
    | some x => exact (h.close x committed).bind fun drifted h₁ => .ok ⟨h₁, rfl⟩ _
  | discard i =>
    rw [Desk.respond, Desk.respond]
    cases xs[i]? with
    | none => exact .ok ⟨h, rfl⟩ _
    | some x =>
      obtain ⟨f₁, f₁', hreturn, hreturn', h₁⟩ :=
        h.returnEstimates (x.initial :: x.estimates) (x.initial :: x.estimates)
      dsimp only
      rw [Forecaster.discard, Forecaster.discard, Outcome.bind_of_ok hreturn,
        Outcome.bind_of_ok hreturn']
      exact .ok ⟨h₁, rfl⟩ _
  -- Learning does not look at the pools.
  | train traces =>
    obtain ⟨walkers, estimates, rfl⟩ := h.exists_pools
    rw [Desk.respond, Desk.respond, Forecaster.train, Forecaster.train]
    dsimp only
    cases f.store.train f.catalog f.router traces with
    | error fault => exact .error fault
    | ok out => exact .ok ⟨h.setStore out.1, rfl⟩ _
  | recompute =>
    obtain ⟨walkers, estimates, rfl⟩ := h.exists_pools
    rw [Desk.respond, Desk.respond, Forecaster.recomputeAll, Forecaster.recomputeAll]
    dsimp only
    cases f.store.recomputeAll with
    | error fault => exact .error fault
    | ok store => exact .ok ⟨h.setStore store, rfl⟩ _

/-- What is idle has been finished, whatever a forecaster has been asked. -/
theorem clean_of_converse {requests : List Request} {answers : List (Answer R)}
    (h : d.forecaster.Clean) (hrun : converse respond d requests = .ok (d', answers)) :
    d'.forecaster.Clean := by
  have hagree : Agree Twins (converse respond d requests) (converse respond d requests) :=
    agree_converse Twins.respond ⟨h.twins, rfl⟩ requests
  obtain ⟨d₁, hd₁, h₁⟩ := hagree.ok_right hrun
  exact h₁.forecaster.clean

/-- Another desk differs in the pools of its forecaster only. This is the relation that requests
keep, and that answers do not show. -/
structure SameButPools (d d' : Desk R) : Prop where
  catalog : d'.forecaster.catalog = d.forecaster.catalog
  router : d'.forecaster.router = d.forecaster.router
  mappings : d'.forecaster.mappings = d.forecaster.mappings
  config : d'.forecaster.config = d.forecaster.config
  store : d'.forecaster.store = d.forecaster.store
  active : d'.active = d.active

omit [Scalar R] in
/-- Desks that are twins differ in the pools of their forecasters only. -/
theorem Twins.sameButPools (h : d.Twins d') : d.SameButPools d' :=
  ⟨h.forecaster.catalog, h.forecaster.router, h.forecaster.mappings, h.forecaster.config,
    h.forecaster.store, h.active⟩

/-- Using objects again leaks nothing. Whatever has become of a walker, an estimate, a dependency
record or a prepare callback, once it is finished its next use goes like that of a new one. And
whatever a forecaster has been asked so far, it answers every further request as if its pools had
never been used, with the same paths and estimates, and leaves the same graphs and forecasts. -/
theorem reuse_leaks_nothing {catalog : Catalog} {router : Router} {mappings : MappingTable R}
    {config : Config R} {store : GraphStore R} {history : List Request} {answers : List (Answer R)}
    (hhistory : converse respond ⟨.new catalog router mappings config store, []⟩ history
      = .ok (d, answers)) :
    StartsAnew Walker.respond (fun _ => True) (Walker.new : Walker R)
      ∧ StartsAnew Estimate.respond Estimate.Input.enters (Estimate.new : Estimate R)
      ∧ StartsAnew DependencyRecord.respond (fun _ => True) DependencyRecord.new
      ∧ StartsAnew PrepareCallback.respond (fun _ => True) PrepareCallback.new
      ∧ ∀ requests, Agree SameButPools (converse respond d requests)
        (converse respond ⟨d.forecaster.renewed, d.active⟩ requests) := by
  refine ⟨Walker.startsAnew, Estimate.startsAnew, DependencyRecord.startsAnew,
    PrepareCallback.startsAnew, fun requests => ?_⟩
  have hclean := clean_of_converse (Forecaster.clean_new ..) hhistory
  have htwins : d.Twins ⟨d.forecaster.renewed, d.active⟩ := ⟨hclean.renewed, rfl⟩
  exact (agree_converse Twins.respond htwins requests).mono Twins.sameButPools

/-- A transfer that aborts in its second batch, and one that breaks off at an unknown statement, with
the transfers closed and given up in the end. -/
def transfers : List Request :=
  [.start 1 0 [], .advance 0 [⟨0, [], 0, false, none⟩], .start 2 0 [],
    .advance 1 [⟨0, [], 0, false, some 5⟩, ⟨9, [], 0, false, none⟩],
    .advance 0 [⟨1, [], 1, true, none⟩], .close 0 false, .discard 0]

/-- One walker and four estimates have been used by now, and the next transfer gets two of them. -/
theorem reuse_leaks_nothing_transfers :
    ∃ d answers, converse respond ⟨Forecaster.teller, []⟩ transfers = .ok (d, answers)
      ∧ d.forecaster.walkers.idle.length = 1 ∧ d.forecaster.estimates.idle.length = 4
      ∧ Agree SameButPools
        (converse respond d [.start 3 0 [], .advance 0 [⟨1, [], 0, false, none⟩]])
        (converse respond ⟨d.forecaster.renewed, d.active⟩
          [.start 3 0 [], .advance 0 [⟨1, [], 0, false, none⟩]]) := by
  have hresult : (converse respond ⟨Forecaster.teller, []⟩ transfers).toOption.map (fun out =>
      (out.1.forecaster.walkers.idle.length, out.1.forecaster.estimates.idle.length))
      = some (1, 4) := by
    decide +kernel
  obtain ⟨⟨d, answers⟩, hrun, hcounts⟩ := Option.map_eq_some_iff.mp hresult
  obtain ⟨hwalkers, hestimates⟩ := Prod.mk.inj hcounts
  have hhistory := Outcome.of_toOption hrun
  exact ⟨d, answers, hhistory, hwalkers, hestimates, (reuse_leaks_nothing hhistory).2.2.2.2 _⟩

end Desk

end TxnPath
