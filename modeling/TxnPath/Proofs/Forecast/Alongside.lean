import TxnPath.Proofs.Forecast.Online
import TxnPath.Proofs.Graph.Evolution

/-!
# `TxnPath.Proofs.Forecast.Alongside`: what happens to graphs while a forecast is open

Whatever is done to the graphs of a site, by whatever forecaster and for whatever forecast, consists
of operations on graphs: every graph that there was evolves into the one under its key, and a graph that
was not there evolves from a fresh one (`GraphStore.Evolves`, `Traffic.evolves_step`). So graphs that
operations have led to are followed by such graphs (`GraphStore.Reached`).
-/

set_option autoImplicit false

namespace TxnPath

variable {R : Type} [Scalar R]

namespace Graph

variable {g g' : Graph R}

/-- What has evolved from a graph that operations led to was led to by operations. -/
theorem Reached.evolves (h : Reached g) (hevolves : g.Evolves g') : Reached g' := by
  induction hevolves with
  | refl => exact h
  | tail _ hstep ih =>
    obtain ⟨e, hrun⟩ := hstep
    exact .edited ih hrun

/-- One operation is a way to evolve. -/
theorem evolves_run {e : Edit} (hrun : e.run g = .ok g') : g.Evolves g' := .single ⟨e, hrun⟩

end Graph

/-! ### Stores -/

namespace GraphStore

variable {s s' s'' : GraphStore R} {k : GraphKey} {g : Graph R} {n : Nat}

/-- Every graph is one that operations lead to. -/
def Reached (s : GraphStore R) : Prop := ∀ k g, s.get? k = some g → g.Reached

/-- What stands under a key of the second store has evolved from what stood under it in the first,
or from a fresh graph if nothing did. No graph is lost. -/
def Evolves (s s' : GraphStore R) : Prop :=
  ∀ k, s.get? k = none ∧ s'.get? k = none
    ∨ ∃ n g', s'.get? k = some g' ∧ (s.getOrCreate k n).2.Evolves g'

/-- A store without graphs holds none that operations did not lead to. -/
theorem reached_empty : (∅ : GraphStore R).Reached := fun k g hget => by
  rw [show (∅ : GraphStore R).get? k = none from Std.ExtTreeMap.getElem?_empty] at hget
  cases hget

/-- A graph that is asked for is there already, or fresh. -/
theorem Reached.getOrCreate (h : s.Reached) (k : GraphKey) (n : Nat) :
    (s.getOrCreate k n).2.Reached := by
  rw [GraphStore.getOrCreate]
  cases hget : s.get? k with
  | some g => exact h k g hget
  | none => exact .fresh ..

omit [Scalar R] in
/-- Asking for a graph that is there changes nothing. -/
theorem getOrCreate_of_get? (hget : s.get? k = some g) (n : Nat) : s.getOrCreate k n = (s, g) := by
  rw [getOrCreate, hget]

/-- A store has evolved from itself. -/
theorem Evolves.refl (s : GraphStore R) : s.Evolves s := fun k => by
  cases hget : s.get? k with
  | none => exact .inl ⟨rfl, rfl⟩
  | some g => exact .inr ⟨0, g, rfl, getOrCreate_of_get? hget 0 ▸ .refl⟩

/-- Graphs that operations led to have evolved into such graphs. -/
theorem Evolves.reached (h : s.Evolves s') (hs : s.Reached) : s'.Reached := by
  intro k g hget
  rcases h k with ⟨_, hnone⟩ | ⟨n, g', hget', hevolves⟩
  · rw [hnone] at hget
    cases hget
  · obtain rfl := Option.some.inj (hget.symm.trans hget')
    exact (hs.getOrCreate k n).evolves hevolves

/-- A graph that was there has evolved. -/
theorem Evolves.graph (h : s.Evolves s') (hget : s.get? k = some g) :
    ∃ g', s'.get? k = some g' ∧ g.Evolves g' := by
  rcases h k with ⟨hnone, _⟩ | ⟨n, g', hget', hevolves⟩
  · rw [hget] at hnone
    cases hnone
  · rw [getOrCreate_of_get? hget] at hevolves
    exact ⟨g', hget', hevolves⟩

/-- One graph evolves, or is made. -/
theorem evolves_set (hevolves : (s.getOrCreate k n).2.Evolves g) : s.Evolves (s.set k g) := by
  intro k'
  by_cases hk : k = k'
  · subst hk
    exact .inr ⟨n, g, get?_set_self .., hevolves⟩
  · rw [get?_set_ne _ _ hk]
    exact Evolves.refl s k'

omit [Scalar R] in
/-- A graph is made by setting it. -/
theorem getOrCreate_fst (s : GraphStore R) (k : GraphKey) (n : Nat) :
    (s.getOrCreate k n).1 = s.set k (s.getOrCreate k n).2 := by
  cases hget : s.get? k with
  | some g => rw [getOrCreate_of_get? hget, set_get hget]
  | none => rw [getOrCreate, hget]

/-- Creating a graph that was not there is part of evolving. -/
theorem evolves_getOrCreate (s : GraphStore R) (k : GraphKey) (n : Nat) :
    s.Evolves (s.getOrCreate k n).1 := by
  rw [getOrCreate_fst]
  exact evolves_set .refl

/-- Recomputing is one operation, on one graph. -/
theorem evolves_recompute (hrun : s.recompute k = .ok s') : s.Evolves s' := by
  rw [recompute] at hrun
  split at hrun
  · cases hrun
    exact .refl s
  case h_2 g hget =>
    obtain ⟨g', hrecompute, rfl⟩ := Outcome.map_ok hrun
    refine evolves_set (n := 0) ?_
    rw [getOrCreate_of_get? hget]
    exact Graph.evolves_run (e := .recompute) hrecompute

end GraphStore

/-! ### Forecasters -/

namespace Forecaster

variable {f f' : Forecaster R} {x x' : Forecast R} {g g' : Graph R}

/-- Queries are recorded one by one, also those of a batch that breaks off. Whatever was recorded
until then stays in the graph, which has evolved by that. -/
theorem evolves_record {p : Procedure} {r : Router} {qs : List Query} {result : Except Error Unit}
    (hrun : record p r g x qs = .ok (g', x', result)) : g.Evolves g' ∧ x'.key = x.key := by
  induction qs generalizing g x with
  | nil =>
    cases hrun
    exact ⟨.refl, rfl⟩
  | cons q qs ih =>
    rw [record] at hrun
    split at hrun
    · cases hrun
    · cases hrun
      exact ⟨.refl, rfl⟩
    case h_3 g₁ step called hobserve =>
    have hstep : g.Evolves g₁ := by
      refine Graph.evolves_run (e := .query x.current q p r x.called) ?_
      rw [Graph.Edit.run, hobserve]
      rfl
    dsimp only at hrun
    split at hrun
    · cases hrun
    -- The query was recorded, which is one operation. The rest are more of them.
    · split at hrun
      · cases hrun
        exact ⟨hstep, rfl⟩
      · obtain ⟨hrest, hkey⟩ := ih hrun
        exact ⟨hstep.trans hrest, hkey⟩

/-- Starting a forecast creates a graph at most. -/
theorem evolves_start {txn : TxnId} {procedure : ProcedureId} {args : List Value}
    {result : Except Error (Forecast R)} (hrun : f.start txn procedure args = .ok (f', result)) :
    f.store.Evolves f'.store := by
  rcases start_ok hrun with ⟨_, rfl⟩ | ⟨x, _, _, hstore, _⟩
  · exact .refl _
  · rw [hstore]
    exact GraphStore.evolves_getOrCreate _ _ _

/-- A batch is recorded in the graph of its forecast, up to a query that is rejected. -/
theorem evolves_advance {qs : List Query} {result : Except Error (Estimate R)}
    (hrun : f.advance x qs = .ok (f', x', result)) : f.store.Evolves f'.store := by
  rcases advance_cases hrun with ⟨rfl, _⟩ | ⟨p, f₁, w, idle, g, y, stop, hborrow, hend, hrecord⟩
  · exact .refl _
  obtain ⟨walkers, estimates, rfl⟩ := borrow_ok hborrow
  have hbatch : (f.graph x.key).Evolves g ∧ y.key = x.key := by
    rcases hrecord with ⟨rfl, rfl⟩ | ⟨_, hrecord⟩
    · exact ⟨.refl, rfl⟩
    · exact evolves_record hrecord
  obtain ⟨hstore, _⟩ := endBatch_ok hend
  rw [hstore, hbatch.2]
  exact GraphStore.evolves_set hbatch.1

/-- A transaction is counted, and its graph recomputed if it has drifted. -/
theorem evolves_endClose {drifted : Bool} (hrun : f.endClose x g = .ok (f', drifted)) :
    ∃ g', f'.store = f.store.set x.key g' ∧ g.Evolves g' := by
  have hcounted : g.Evolves g.recordTxn := Graph.evolves_run (e := .txn) rfl
  obtain ⟨g', hstore, rfl | hrecompute⟩ := endClose_cases hrun
  · exact ⟨_, hstore, hcounted⟩
  · exact ⟨g', hstore, hcounted.trans (Graph.evolves_run (e := .recompute) hrecompute)⟩

/-- Closing a forecast links the end of its path, counts the transaction, and may recompute the
graph. -/
theorem evolves_close {committed drifted : Bool} (hrun : f.close x committed = .ok (f', drifted)) :
    f.store.Evolves f'.store := by
  -- The path is led to its end, unless it has come there.
  obtain ⟨g₁, hlinked, hend⟩ : ∃ g₁, (f.graph x.key).Evolves g₁
      ∧ f.endClose x g₁ = .ok (f', drifted) := by
    rw [close] at hrun
    obtain ⟨s, _, hrun⟩ := Outcome.bind_ok hrun
    split at hrun
    · exact ⟨_, .refl, hrun⟩
    · obtain ⟨⟨g₁, i⟩, hlink, hrun⟩ := Outcome.bind_ok hrun
      have hrun' : (Graph.Edit.link x.current (if committed then s.commit else s.abort)).run
          (f.graph x.key) = .ok g₁ := by
        rw [Graph.Edit.run, hlink]
        rfl
      exact ⟨g₁, Graph.evolves_run hrun', hrun⟩
  obtain ⟨g', hstore, hevolves⟩ := evolves_endClose hend
  rw [hstore]
  exact GraphStore.evolves_set (hlinked.trans hevolves)

end Forecaster

/-! ### Events -/

namespace Traffic

variable {w w' : Traffic R}

/-- Every event leaves graphs that have evolved. Transactions of all forecasters come in between, as
do replays and recomputations, and each of these is an operation on one graph. -/
theorem evolves_step {e : Event R} (hstep : w.step e = .ok w') : w.store.Evolves w'.store := by
  -- Each event works on the graph of one key, and leaves the other graphs alone.
  cases e with
  | start f txn procedure args =>
    rw [step] at hstep
    split at hstep
    · cases hstep
    all_goals
      cases hstep
      exact Forecaster.evolves_start ‹_›
  | advance f i queries =>
    rw [step] at hstep
    split at hstep
    · cases hstep
      exact .refl _
    · split at hstep
      · cases hstep
      · cases hstep
        exact Forecaster.evolves_advance ‹_›
  | close f i committed =>
    rw [step] at hstep
    split at hstep
    · cases hstep
      exact .refl _
    · dsimp only at hstep
      split at hstep
      · cases hstep
      · cases hstep
        exact Forecaster.evolves_close ‹_›
  | replay k partitions t p r =>
    rw [step] at hstep
    have hmade := GraphStore.getOrCreate_fst w.store k partitions
    dsimp only at hstep
    split at hstep
    · cases hstep
    case h_2 g' result hreplay =>
      cases hstep
      dsimp only
      rw [hmade, GraphStore.set_set]
      refine GraphStore.evolves_set (n := partitions) (Graph.evolves_run (e := .trace t p r) ?_)
      rw [Graph.Edit.run, hreplay]
      rfl
  | recompute k =>
    obtain ⟨store, hstore, rfl⟩ := Outcome.map_ok hstep
    exact GraphStore.evolves_recompute hstore

end Traffic

end TxnPath
