import TxnPath.Proofs.Graph.Calls
import TxnPath.Proofs.Router.Within
import TxnPath.Proofs.Walk.Itinerary

/-!
# `TxnPath.Proofs.Forecast.Filled`: stores that training has filled

Training replays traces into the graphs of a store and recomputes them, whatever the routers are
that it asks, as long as they stay within the partitions. Each graph then belongs to the key it is
stored under, touches no partition that does not exist, and holds the paths that were replayed into
it (`GraphStore.Filled.sound`). This is also so for training that was broken off.
-/

set_option autoImplicit false

namespace TxnPath

variable {R : Type}

/-- A query is resolved to a call of partitions that exist. -/
theorem Query.resolve_within {q : Query} {p : Procedure} {r : Router} {n base : Nat}
    {called : List StatementId} {c : Call} (hr : r.Within n) (hbase : base < n)
    (h : q.resolve p r base called = .ok c) : ∀ x ∈ c.partitions, x < n := by
  rw [resolve] at h
  split at h
  · cases h
  · split at h
    · cases h
    case h_2 touched hroute =>
      split at h
      · cases h
      · cases h
        exact hr.route _ _ _ _ _ hbase hroute

namespace Graph

variable {g g' : Graph R} {k : GraphKey} {n : Nat}

/-- A graph of a key, for `n` partitions, whose calls touch no others. A walk over it does not fail
for want of an entry. -/
structure Confined (g : Graph R) (k : GraphKey) (n : Nat) : Prop where
  key : g.key = k
  partitions : g.partitions = n
  base : k.base < n
  inRange : ∀ v, g.InRange v

/-- The base partition of a confined graph is one of the partitions. -/
theorem Confined.base_lt (h : g.Confined k n) : g.base < n := by
  have hbase : g.base = k.base := congrArg GraphKey.base h.key
  rw [hbase]
  exact h.base

/-- That a graph is confined is said of its key and of what its vertices stand for. -/
theorem Confined.of_sameKinds (h : g.Confined k n) (hsame : SameKinds g g') : g'.Confined k n where
  key := hsame.key.trans h.key
  partitions := hsame.partitions.trans h.partitions
  base := h.base
  inRange := fun v c hc => by
    rw [hsame.kind] at hc
    rw [hsame.partitions]
    exact h.inRange v c hc

/-- A new vertex touches what its call touches. -/
theorem Confined.ensureCall {c : Call} (h : g.Confined k n) (hc : ∀ p ∈ c.partitions, p < n) :
    (g.ensureCall c).1.Confined k n := by
  rcases ensureCall_cases g c with ⟨v, hv⟩ | ⟨_, hnew⟩
  · rw [hv]
    exact h
  · rw [hnew]
    refine ⟨h.key, h.partitions, h.base, fun v c' hc' => ?_⟩
    rw [kind?_pushVertex] at hc'
    split at hc'
    · cases hc'
      exact fun p hp => h.partitions.symm ▸ hc p hp
    · exact h.inRange v c' hc'

/-- A fresh graph touches no partition at all. -/
theorem confined_fresh (hbase : k.base < n) :
    (fresh k.procedure k.base n : Graph R).Confined k n where
  key := rfl
  partitions := rfl
  base := hbase
  inRange := fun v c hc => by
    rcases v with _ | _ | _ | v <;> cases hc

/-- Replaying with a router that stays within the partitions adds calls that do. -/
theorem keptBy_confined [Zero R] {p : Procedure} {r : Router} (hr : r.Within n) :
    KeptBy (R := R) (fun g => g.Confined k n) p r where
  kinds := fun hsame h => h.of_sameKinds hsame
  call := fun hresolve h =>
    h.ensureCall (Query.resolve_within hr h.base_lt hresolve)

/-- A graph of a key, for `n` partitions, that holds paths. -/
structure Stored (g : Graph R) (k : GraphKey) (n : Nat) : Prop where
  confined : g.Confined k n
  recorded : ∃ paths m, g.Recorded ⟨0, 1, 2⟩ paths m

/-- So a fresh graph may be stored under its key. -/
theorem stored_fresh (hbase : k.base < n) : (fresh k.procedure k.base n : Graph R).Stored k n :=
  ⟨confined_fresh hbase, [], 0, recorded_fresh k.procedure k.base n⟩

/-- A trace that is replayed adds calls of its own queries, and these are routed within the
partitions. -/
theorem Stored.replay [Zero R] {t : Trace} {p : Procedure} {r : Router}
    {result : Except Error (List Nat)} (h : g.Stored k n) (hr : r.Within n)
    (hrun : g.replay t p r = .ok (g', result)) : g'.Stored k n := by
  obtain ⟨paths, m, hrecorded⟩ := h.recorded
  exact ⟨(keptBy_confined hr).replay hrun h.confined, _, _, (hrecorded.replay hrun).1⟩

/-- Recomputing adds no calls. -/
theorem Stored.recompute [Scalar R] (h : g.Stored k n) (hrun : g.recompute = .ok g') :
    g'.Stored k n := by
  obtain ⟨paths, m, hrecorded⟩ := h.recorded
  obtain ⟨g₁, hrun', hrecorded'⟩ := hrecorded.recompute
  obtain rfl := Except.ok.inj (hrun.symm.trans hrun')
  exact ⟨h.confined.of_sameKinds (hrecorded.sameKinds_recompute hrun), paths, m, hrecorded'⟩

end Graph

namespace GraphStore

variable {s s' : GraphStore R} {c : Catalog} {r : Router} {n : Nat}

/-- Every graph is one of its key that holds paths. -/
def Sound (s : GraphStore R) (n : Nat) : Prop := ∀ k g, s.get? k = some g → g.Stored k n

/-- A store without graphs is sound. -/
theorem sound_empty (n : Nat) : (∅ : GraphStore R).Sound n := by
  intro k g h
  have hget : (∅ : GraphStore R).get? k = none := Std.ExtTreeMap.getElem?_empty
  rw [hget] at h
  cases h

/-- A graph may be put in under its key. -/
theorem Sound.set {k : GraphKey} {g : Graph R} (h : s.Sound n) (hg : g.Stored k n) :
    (s.set k g).Sound n := by
  intro k' g' hget
  by_cases hk : k = k'
  · subst hk
    rw [get?_set_self] at hget
    exact Option.some.inj hget ▸ hg
  · rw [get?_set_ne _ _ hk] at hget
    exact h k' g' hget

/-- A graph that is made when it is asked for holds no path yet. -/
theorem Sound.getOrCreate {k : GraphKey} (h : s.Sound n) (hbase : k.base < n) :
    (s.getOrCreate k n).1.Sound n ∧ (s.getOrCreate k n).2.Stored k n := by
  rw [GraphStore.getOrCreate]
  cases hget : s.get? k with
  | some g => exact ⟨h, h k g hget⟩
  | none =>
    have hfresh : (Graph.fresh k.procedure k.base n : Graph R).Stored k n :=
      Graph.stored_fresh hbase
    exact ⟨h.set hfresh, hfresh⟩

section Training

variable [Scalar R]

/-- The place of a trace is a graph of its procedure, at a partition that exists. -/
theorem placeOf_ok {t : Trace} {p : Procedure} {k : GraphKey} (h : placeOf c r t = .ok (p, k)) :
    c.procedure t.procedure = .ok p ∧ r.base p t.params = .ok k.base ∧ k.procedure = p.id := by
  rw [placeOf] at h
  split at h
  · cases h
  case h_2 p' hp =>
    split at h
    · cases h
    case h_2 hbase =>
      cases h
      exact ⟨hp, hbase, rfl⟩

/-- Replaying a trace keeps the store sound, also where the trace is rejected. A rejected trace
leaves some of its calls behind, and these were routed like all others. -/
theorem Sound.replay {t : Trace} {result : Except Error GraphKey} (h : s.Sound c.partitions)
    (hr : r.Within c.partitions) (hrun : s.replay c r t = .ok (s', result)) :
    s'.Sound c.partitions := by
  rw [GraphStore.replay] at hrun
  split at hrun
  · cases hrun
    exact h
  case h_2 p k hplace =>
  obtain ⟨_, hbase, _⟩ := placeOf_ok hplace
  obtain ⟨hstore, hgraph⟩ := h.getOrCreate (hr.base _ _ _ hbase)
  dsimp only at hrun
  split at hrun
  · cases hrun
  all_goals
    cases hrun
    exact hstore.set (hgraph.replay hr ‹_›)

/-- So does replaying several. Those before the first rejected one are kept, and so is what was
recorded of that one. -/
theorem Sound.replayAll {traces : List Trace} {result : Except Error (List GraphKey)}
    (h : s.Sound c.partitions) (hr : r.Within c.partitions)
    (hrun : replayAll c r s traces = .ok (s', result)) : s'.Sound c.partitions := by
  induction traces generalizing s result with
  | nil =>
    cases hrun
    exact h
  | cons t rest ih =>
    rw [GraphStore.replayAll] at hrun
    split at hrun
    · cases hrun
    case h_2 hreplay =>
      cases hrun
      exact h.replay hr hreplay
    case h_3 hreplay =>
      split at hrun
      · cases hrun
      -- The trace was accepted. The rest goes on from the store that it has left.
      all_goals
        cases hrun
        exact ih (h.replay hr hreplay) ‹_›

/-- Recomputing a graph keeps the store sound. -/
theorem Sound.recompute {k : GraphKey} (h : s.Sound n) (hrun : s.recompute k = .ok s') :
    s'.Sound n := by
  rw [GraphStore.recompute] at hrun
  split at hrun
  · cases hrun
    exact h
  case h_2 g hget =>
    obtain ⟨g', hrecompute, rfl⟩ := Outcome.map_ok hrun
    exact h.set ((h k g hget).recompute hrecompute)

/-- Training keeps every graph one of its key that holds paths, also where it is broken off. After
the traces come the recomputations, one graph after the other. -/
theorem Sound.train {traces : List Trace} {result : Except Error Nat}
    (h : s.Sound c.partitions) (hr : r.Within c.partitions)
    (hrun : s.train c r traces = .ok (s', result)) : s'.Sound c.partitions := by
  rw [GraphStore.train] at hrun
  split at hrun
  · cases hrun
  case h_2 hreplay =>
    cases hrun
    exact h.replayAll hr hreplay
  case h_3 hreplay =>
    obtain ⟨s₁, hfold, hrun⟩ := Outcome.map_ok hrun
    cases hrun
    refine Outcome.foldlM_rel (fun s s' => s.Sound c.partitions → s'.Sound c.partitions)
      (fun _ h => h) (fun h h' hs => h' (h hs)) (fun hstep hs => hs.recompute hstep) hfold ?_
    exact h.replayAll hr hreplay

/-- The stores that training fills, from the one without graphs on. It may ask another router every
time, and be broken off by a trace that fails. -/
inductive Filled (c : Catalog) : GraphStore R → Prop
  | empty : Filled c ∅
  | train {s s' : GraphStore R} {r : Router} {traces : List Trace} {result : Except Error Nat} :
    Filled c s → r.Within c.partitions → s.train c r traces = .ok (s', result) → Filled c s'

/-- Hence every store that was filled by training is sound, whatever the routers were and wherever
training broke off. -/
theorem Filled.sound (h : Filled c s) : s.Sound c.partitions := by
  induction h with
  | empty => exact sound_empty c.partitions
  | train _ hr hrun ih => exact ih.train hr hrun

end Training

end GraphStore

end TxnPath
