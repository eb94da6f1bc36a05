import TxnPath.Forecast
import TxnPath.Proofs.Pool
import TxnPath.Proofs.Walk.Itinerary

/-!
# `TxnPath.Proofs.Forecast.Pools`: pools never stop a forecaster

A pool stops when it meets an object in use where it expects none. Finishing a walker or an
estimate leaves it out of use, so that pools hold nothing else (`Forecaster.Rested`), and
taking objects out and putting them back always goes well.
-/

set_option autoImplicit false

namespace TxnPath

namespace Forecaster

variable {R : Type} [Scalar R] {f f' f'' : Forecaster R}

/-- Nothing that is idle is in use. -/
structure Rested (f : Forecaster R) : Prop where
  walkers : ∀ w ∈ f.walkers.idle, w.Rested
  estimates : ∀ e ∈ f.estimates.idle, e.vertex = none

/-- Another forecaster has other graphs or pools, and nothing idle in these is in use. All that a
forecaster was set up with stays as it was. -/
structure Handled (f f' : Forecaster R) : Prop where
  catalog : f'.catalog = f.catalog
  router : f'.router = f.router
  mappings : f'.mappings = f.mappings
  config : f'.config = f.config
  rested : f'.Rested

omit [Scalar R] in
/-- Handling the pools twice is handling them. -/
theorem Handled.trans (h : Handled f f') (h' : Handled f' f'') : Handled f f'' where
  catalog := h'.catalog.trans h.catalog
  router := h'.router.trans h.router
  mappings := h'.mappings.trans h.mappings
  config := h'.config.trans h.config
  rested := h'.rested

omit [Scalar R] in
/-- The pools of a new forecaster are empty. -/
theorem rested_new (catalog : Catalog) (router : Router) (mappings : MappingTable R)
    (config : Config R) (store : GraphStore R) :
    (new catalog router mappings config store).Rested := ⟨nofun, nofun⟩

omit [Scalar R] in
/-- Graphs are no business of the pools. -/
theorem Rested.setStore (h : f.Rested) (store : GraphStore R) :
    Handled f { f with store := store } := ⟨rfl, rfl, rfl, rfl, h.walkers, h.estimates⟩

/-- A walker that rests may be put into a pool. -/
theorem idle_of_rested {w : Walker R} (h : w.Rested) : Poolable.isInitialized w = false := h.idle

omit [Scalar R] in
/-- So may an estimate that is of no vertex. -/
theorem idle_of_vertex {e : Estimate R} (h : e.vertex = none) : Poolable.isInitialized e = false :=
  congrArg Option.isSome h

section Handling

variable {P : Walker R → Prop}

/-- From pools of walkers of a kind that is not in use, one of this kind can be taken out. -/
theorem borrow_total (hP : ∀ w, P w → w.isInitialized = false) (hnew : P .new)
    (hwalkers : ∀ w ∈ f.walkers.idle, P w) (hestimates : ∀ e ∈ f.estimates.idle, e.vertex = none) :
    ∃ walkers estimates w idle,
      f.borrow = .ok ({ f with walkers := walkers, estimates := estimates }, w, idle)
        ∧ P w ∧ (∀ w ∈ walkers.idle, P w) ∧ ∀ e ∈ estimates.idle, e.vertex = none := by
  obtain ⟨ws, w, hw, hkind, hws⟩ := Pool.borrow_total hP hwalkers (fun _ => .new) fun _ => hnew
  obtain ⟨es, e, he, _, hes⟩ := Pool.borrow_total (P := fun e : Estimate R => e.vertex = none)
    (fun _ => idle_of_vertex) hestimates (fun _ => .new) fun _ => rfl
  refine ⟨ws, es, w, e, ?_, hkind, hws, hes⟩
  rw [Forecaster.borrow, hw]
  dsimp only
  rw [he]

/-- A walker can be put back if finishing makes it one of this kind. -/
theorem returnWalker_total (hP : ∀ w, P w → w.isInitialized = false) (hfinish : ∀ w : Walker R, P w.finish)
    (hwalkers : ∀ w ∈ f.walkers.idle, P w) (w : Walker R) :
    ∃ walkers, f.returnWalker w = .ok { f with walkers := walkers } ∧ ∀ w ∈ walkers.idle, P w := by
  obtain ⟨ws, hrelease, hws⟩ := Pool.release_total hP hfinish hwalkers w
  refine ⟨ws, ?_, hws⟩
  rw [Forecaster.returnWalker, hrelease]
  rfl

omit [Scalar R] in
/-- Estimates can be put back. -/
theorem returnEstimates_total (hestimates : ∀ e ∈ f.estimates.idle, e.vertex = none)
    (es : List (Estimate R)) :
    ∃ estimates, f.returnEstimates es = .ok { f with estimates := estimates }
      ∧ ∀ e ∈ estimates.idle, e.vertex = none := by
  obtain ⟨pool, hrelease, hpool⟩ := Pool.releaseAll_total
    (P := fun e : Estimate R => e.vertex = none) (fun _ => idle_of_vertex) (fun _ => rfl)
    hestimates es
  refine ⟨pool, ?_, hpool⟩
  rw [Forecaster.returnEstimates, hrelease]
  rfl

end Handling

/-- From pools in order a walker and an estimate can always be taken, either idle ones or new ones,
and both are out of use. -/
theorem Rested.borrow (h : f.Rested) :
    ∃ f' w idle, f.borrow = .ok (f', w, idle) ∧ Handled f f' ∧ w.Rested ∧ f'.store = f.store := by
  obtain ⟨ws, es, w, e, hborrow, hrested, hws, hes⟩ :=
    borrow_total (fun _ => idle_of_rested) Walker.rested_new h.walkers h.estimates
  exact ⟨_, w, e, hborrow, ⟨rfl, rfl, rfl, rfl, hws, hes⟩, hrested, rfl⟩

/-- A walker can always be put back, as it is finished first. -/
theorem Rested.returnWalker (h : f.Rested) (w : Walker R) :
    ∃ f', f.returnWalker w = .ok f' ∧ Handled f f' ∧ f'.store = f.store := by
  obtain ⟨ws, hreturn, hws⟩ :=
    returnWalker_total (fun _ => idle_of_rested) Walker.rested_finish h.walkers w
  exact ⟨_, hreturn, ⟨rfl, rfl, rfl, rfl, hws, h.estimates⟩, rfl⟩

omit [Scalar R] in
/-- So can any number of estimates. -/
theorem Rested.returnEstimates (h : f.Rested) (es : List (Estimate R)) :
    ∃ f', f.returnEstimates es = .ok f' ∧ Handled f f' ∧ f'.store = f.store := by
  obtain ⟨pool, hreturn, hpool⟩ := returnEstimates_total h.estimates es
  exact ⟨_, hreturn, ⟨rfl, rfl, rfl, rfl, h.walkers, hpool⟩, rfl⟩

end Forecaster

end TxnPath
