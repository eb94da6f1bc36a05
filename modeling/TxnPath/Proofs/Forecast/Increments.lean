import TxnPath.Proofs.Forecast.Training

/-!
# `TxnPath.Proofs.Forecast.Increments`: training in parts

Training replays traces and then recomputes the graphs that received one. Cut into two, a workload is
recomputed once more in between, in those graphs only that the first part reached.
`GraphStore.train_append` says that nobody can tell: what the second part leaves behind the first is
what both leave when they are trained at once, the very same store.

The second part replays its traces into graphs in which the same is recorded
(`GraphStore.SameRecord.replayAll`). Graphs that it does not reach stay as the first part recomputed
them (`GraphStore.get?_replayAll`), and recomputing the others forgets when the hits were folded
(`Graph.SameRecord.recompute_eq`). The store that training starts from is any store, and the numbers
are any scalars.
-/

set_option autoImplicit false

namespace TxnPath

namespace GraphStore

open Outcome (Agree)

variable {R : Type} {s s' s₁ s₂ t u u' : GraphStore R} {k : GraphKey} {ks ks₁ ks₂ : List GraphKey}

/-- A graph is made in both stores or in neither. -/
theorem SameRecord.getOrCreate (h : s.SameRecord s') (k : GraphKey) (n : Nat) :
    (s.getOrCreate k n).1.SameRecord (s'.getOrCreate k n).1
      ∧ (s.getOrCreate k n).2.SameRecord (s'.getOrCreate k n).2 := by
  rw [GraphStore.getOrCreate, GraphStore.getOrCreate]
  have hk := h k
  generalize s.get? k = x at hk
  generalize s'.get? k = y at hk
  cases hk with
  | some hg => exact ⟨h, hg⟩
  | none => exact ⟨h.set k (.refl _), .refl _⟩

variable [Scalar R] {c : Catalog} {r : Router} {A B : List Trace} {n m : Nat}

/-! ### Replaying into stores in which the same is recorded -/

/-- A trace is placed by the catalog and the router, so that it goes into graphs in which the same
is recorded. -/
theorem SameRecord.replay (h : s.SameRecord s') (trace : Trace) :
    Agree SameRecord (s.replay c r trace) (s'.replay c r trace) := by
  rw [GraphStore.replay, GraphStore.replay]
  cases placeOf c r trace with
  | error e => exact .ok h _
  | ok place =>
    obtain ⟨p, k⟩ := place
    obtain ⟨hstore, hgraph⟩ := h.getOrCreate k c.partitions
    have hreplay := hgraph.replay (p := p) (r := r) trace
    dsimp only
    generalize Graph.replay (s.getOrCreate k c.partitions).2 trace p r = x at hreplay
    generalize Graph.replay (s'.getOrCreate k c.partitions).2 trace p r = y at hreplay
    cases hreplay with
    | error f => exact .error f
    | ok hg result => cases result <;> exact .ok (hstore.set k hg) _

/-- So are several traces, up to the first one that is rejected, which is rejected by both stores.
-/
theorem SameRecord.replayAll (h : s.SameRecord s') (traces : List Trace) :
    Agree SameRecord (replayAll c r s traces) (replayAll c r s' traces) := by
  induction traces generalizing s s' with
  | nil => exact .ok h _
  | cons trace rest ih =>
    rw [GraphStore.replayAll, GraphStore.replayAll]
    -- The first trace is accepted or rejected by both, and only then the rest is replayed.
    have hstep := h.replay (c := c) (r := r) trace
    generalize s.replay c r trace = x at hstep
    generalize s'.replay c r trace = y at hstep
    cases hstep with
    | error f => exact .error f
    | @ok s₁ s₁' h₁ result =>
      cases result with
      | error e => exact .ok h₁ _
      | ok k =>
        dsimp only
        have hrest := ih h₁
        generalize GraphStore.replayAll c r s₁ rest = x at hrest ⊢
        generalize GraphStore.replayAll c r s₁' rest = y at hrest ⊢
        cases hrest with
        | error f => exact .error f
        | ok h₂ result => cases result <;> exact .ok h₂ _

/-! ### Which graphs are replayed into -/

/-- All traces are accepted if the first one is, and then all others. The others are replayed into
the store that the first one has left. -/
theorem replayAll_cons_ok {trace : Trace} {rest : List Trace} :
    replayAll c r s (trace :: rest) = .ok (u, .ok ks) ↔ ∃ t k ks', s.replay c r trace = .ok (t, .ok k)
      ∧ replayAll c r t rest = .ok (u, .ok ks') ∧ ks = k :: ks' := by
  rw [replayAll]
  rcases s.replay c r trace with f | ⟨t, e | k⟩
  · simp
  · simp
  · dsimp only
    rcases hrest : replayAll c r t rest with f | ⟨u', e | ks'⟩
    · simp [hrest]
    · simp [hrest]
    -- Both parts are accepted, and the keys are put together.
    · constructor
      · intro h
        cases h
        exact ⟨t, k, ks', rfl, hrest, rfl⟩
      · rintro ⟨_, _, _, hstep, hrest', rfl⟩
        cases hstep
        cases hrest.symm.trans hrest'
        rfl

/-- A workload is replayed part by part. The second part begins with the store of the first one, and
the keys are listed in the order of the traces. -/
theorem replayAll_append :
    replayAll c r s (A ++ B) = .ok (u, .ok ks) ↔ ∃ t ks₁ ks₂, replayAll c r s A = .ok (t, .ok ks₁)
      ∧ replayAll c r t B = .ok (u, .ok ks₂) ∧ ks = ks₁ ++ ks₂ := by
  induction A generalizing s ks with
  -- Without a first part there is nothing to do before the second.
  | nil =>
    constructor
    · intro h
      exact ⟨s, [], ks, rfl, h, rfl⟩
    · rintro ⟨_, _, _, hnil, h, rfl⟩
      cases hnil
      exact h
  | cons trace A ih =>
    rw [List.cons_append, replayAll_cons_ok]
    constructor
    · rintro ⟨s₁, k, ks', hstep, hrest, rfl⟩
      obtain ⟨t, ks₁, ks₂, hA, hB, rfl⟩ := ih.mp hrest
      exact ⟨t, k :: ks₁, ks₂, replayAll_cons_ok.mpr ⟨s₁, k, ks₁, hstep, hA, rfl⟩, hB, rfl⟩
    · rintro ⟨t, _, ks₂, hA, hB, rfl⟩
      obtain ⟨s₁, k, ks₁, hstep, hrest, rfl⟩ := replayAll_cons_ok.mp hA
      exact ⟨s₁, k, ks₁ ++ ks₂, hstep, ih.mpr ⟨t, ks₁, ks₂, hrest, hB, rfl⟩, rfl⟩

/-- A trace that is accepted is recorded in the graph whose key it gives, and in no other. -/
theorem get?_replay {trace : Trace} (hrun : s.replay c r trace = .ok (s', .ok k)) {k' : GraphKey}
    (hk : k ≠ k') : s'.get? k' = s.get? k' := by
  rw [GraphStore.replay] at hrun
  split at hrun
  · cases hrun
  dsimp only at hrun
  split at hrun
  · cases hrun
  · cases hrun
  · cases hrun
    rw [get?_set_ne _ _ hk]
    exact Traffic.get?_getOrCreate_ne hk

/-- Accepted traces leave the graphs alone whose keys they do not give. -/
theorem get?_replayAll {traces : List Trace} (hrun : replayAll c r s traces = .ok (s', .ok ks))
    (hk : k ∉ ks) : s'.get? k = s.get? k := by
  induction traces generalizing s ks with
  | nil =>
    cases hrun
    rfl
  | cons trace rest ih =>
    obtain ⟨t, k₁, ks, hstep, hrest, rfl⟩ := replayAll_cons_ok.mp hrun
    rw [List.mem_cons, not_or] at hk
    rw [ih hrest hk.2, get?_replay hstep (Ne.symm hk.1)]

/-! ### Recomputing the graphs of keys -/

/-- The graphs of some keys have been recomputed, as far as there are any, and no others. -/
def Recomputed (s : GraphStore R) (ks : List GraphKey) (s' : GraphStore R) : Prop :=
  ∀ k, if k ∈ ks then (s.get? k).mapM Graph.recompute = .ok (s'.get? k) else s'.get? k = s.get? k

/-- Recomputing records nothing. Under a key that was recomputed hits only move from the window to
the totals, and under any other nothing happens. -/
theorem Recomputed.sameRecord (h : Recomputed s ks s') : s.SameRecord s' := fun k => by
  have hk := h k
  split at hk
  · cases hg : s.get? k with
    | none =>
      rw [hg] at hk
      rw [← Except.ok.inj hk]
      exact .none
    | some g =>
      rw [hg] at hk
      obtain ⟨g', hrecompute, hsome⟩ := Outcome.map_ok hk
      rw [← hsome]
      exact .some (Graph.sameRecord_recompute hrecompute)
  · rw [hk]
    exact SameRecord.refl s k

/-- Where the same is recorded, recomputing gives the same, or stops in both stores. -/
theorem SameRecord.mapM_recompute (h : s.SameRecord s') (k : GraphKey) :
    (s'.get? k).mapM Graph.recompute = (s.get? k).mapM Graph.recompute := by
  have hk := h k
  generalize s.get? k = x at hk
  generalize s'.get? k = y at hk
  cases hk with
  | none => rfl
  | some hg => rw [Option.mapM_some, Option.mapM_some, hg.recompute_eq]

/-- Recomputing the graph of one key, said of the store that comes out: this graph is recomputed, if
there is one, and the others are the same. -/
theorem recompute_ok_iff : s.recompute k = .ok s' ↔ Recomputed s [k] s' := by
  simp only [Recomputed, List.mem_singleton]
  rw [recompute]
  cases hg : s.get? k with
  | none =>
    refine ⟨fun h k' => ?_, fun h => congrArg Except.ok (ext_get? fun k' => ?_)⟩
    · cases h
      split
      case isTrue hk =>
        rw [hk, hg]
        rfl
      · rfl
    · have hk' := h k'
      split at hk'
      case isTrue hk =>
        rw [hk, hg] at hk' ⊢
        exact Except.ok.inj hk'
      · exact hk'.symm
  -- There is a graph under the key, and its recomputation decides.
  | some g =>
    dsimp only
    constructor
    · intro h k'
      obtain ⟨g', hrecompute, rfl⟩ := Outcome.map_ok h
      split
      case isTrue hk =>
        rw [hk, hg, get?_set_self, Option.mapM_some, hrecompute]
        rfl
      case isFalse hk => exact get?_set_ne _ _ (Ne.symm hk)
    · intro h
      have hk := h k
      rw [if_pos rfl, hg] at hk
      obtain ⟨g', hrecompute, hsome⟩ := Outcome.map_ok hk
      rw [hrecompute]
      refine congrArg Except.ok (ext_get? fun k' => ?_)
      have hk' := h k'
      split at hk'
      case isTrue heq => rw [heq, get?_set_self, hsome]
      case isFalse hne => rw [get?_set_ne _ _ (Ne.symm hne), hk']

/-- Some keys are recomputed, their graphs and others are recorded into, and these are recomputed. If
what comes after the first recomputation touches the graphs of `ks₂` only, it may as well happen
before. -/
theorem Recomputed.append_iff (h : Recomputed t ks₁ s₁) (hu : ∀ k ∉ ks₂, u.get? k = t.get? k)
    (hu' : ∀ k ∉ ks₂, u'.get? k = s₁.get? k) (hsame : u.SameRecord u') :
    Recomputed u' ks₂ s₂ ↔ Recomputed u (ks₁ ++ ks₂) s₂ := by
  refine forall_congr' fun k => ?_
  have hk := h k
  -- A graph of `ks₂` forgets that it was recomputed before, and the others are not recorded into.
  by_cases h₂ : k ∈ ks₂
  · rw [if_pos h₂, if_pos (List.mem_append_right _ h₂), hsame.mapM_recompute]
  · rw [if_neg h₂, hu' k h₂]
    by_cases h₁ : k ∈ ks₁
    · rw [if_pos h₁] at hk
      rw [if_pos (List.mem_append_left _ h₁), hu k h₂, hk, Except.ok.injEq]
      exact eq_comm
    · rw [if_neg h₁] at hk
      rw [if_neg fun happ => (List.mem_append.mp happ).elim h₁ h₂, hu k h₂, hk]

/-- Recomputing the graphs of keys one after the other recomputes each of them once, also if a key
comes up again: a graph that was just recomputed stays as it is. -/
theorem foldlM_recompute_ok_iff : ks.foldlM recompute s = .ok s' ↔ Recomputed s ks s' := by
  induction ks generalizing s with
  | nil =>
    refine ⟨fun h => ?_, fun h => congrArg Except.ok (ext_get? fun k => ?_)⟩
    · cases h
      exact fun k => rfl
    · exact (h k).symm
  | cons k ks ih =>
    rw [Outcome.foldlM_cons_iff, ← List.singleton_append]
    constructor
    · rintro ⟨m, hm, hrest⟩
      have hstep := recompute_ok_iff.mp hm
      exact (hstep.append_iff (fun _ _ => rfl) (fun _ _ => rfl) hstep.sameRecord).mp (ih.mp hrest)
    -- All graphs can be recomputed in the end, so this one can be recomputed first.
    · intro h
      obtain ⟨m, hm⟩ : ∃ m, s.recompute k = .ok m := by
        have hk := h k
        rw [if_pos (List.mem_append_left _ (List.mem_singleton_self k))] at hk
        rw [recompute]
        cases hg : s.get? k with
        | none => exact ⟨s, rfl⟩
        | some g =>
          rw [hg] at hk
          obtain ⟨g', hrecompute, _⟩ := Outcome.map_ok hk
          exact ⟨s.set k g', congrArg (Except.map (s.set k)) hrecompute⟩
      have hstep := recompute_ok_iff.mp hm
      exact ⟨m, hm, ih.mpr
        ((hstep.append_iff (fun _ _ => rfl) (fun _ _ => rfl) hstep.sameRecord).mpr h)⟩

/-! ### Training -/

/-- Training accepts a workload if every trace is accepted and every graph that received one can be
recomputed. -/
theorem train_ok_iff :
    s.train c r A = .ok (s', .ok n) ↔ n = A.length
      ∧ ∃ t ks, replayAll c r s A = .ok (t, .ok ks) ∧ Recomputed t ks s' := by
  -- Graphs that received several traces are recomputed once.
  have hdups : ∀ t ks, Recomputed t ks.eraseDups s' ↔ Recomputed t ks s' := fun t ks =>
    forall_congr' fun k => by simp only [List.mem_eraseDups]
  rw [train]
  rcases replayAll c r s A with f | ⟨t, e | ks⟩
  · simp
  · simp
  · dsimp only
    constructor
    · intro h
      obtain ⟨s₁, hfold, hs₁⟩ := Outcome.map_ok h
      cases hs₁
      exact ⟨rfl, t, ks, rfl, (hdups t ks).mp (foldlM_recompute_ok_iff.mp hfold)⟩
    · rintro ⟨rfl, _, _, hrun, hrecomputed⟩
      cases hrun
      rw [foldlM_recompute_ok_iff.mpr ((hdups t ks).mpr hrecomputed)]
      rfl

/-- Training in two parts is training at once. Whatever the store was, once training has accepted a
workload, it accepts another if it accepts both at once, and leaves the same store behind: the same
graphs under the same keys, with the same vertices, edges, hits, measurements and probabilities. -/
theorem train_append (hA : s.train c r A = .ok (s₁, .ok n)) :
    s₁.train c r B = .ok (s₂, .ok m) ↔ s.train c r (A ++ B) = .ok (s₂, .ok (n + m)) := by
  obtain ⟨rfl, t, ks₁, hreplayA, hrecomputed⟩ := train_ok_iff.mp hA
  have hlockstep := hrecomputed.sameRecord.replayAll (c := c) (r := r) B
  rw [train_ok_iff, train_ok_iff, List.length_append, Nat.add_left_cancel_iff]
  refine and_congr_right fun _ => ⟨?_, ?_⟩
  · rintro ⟨u', ks₂, hreplay', hend⟩
    obtain ⟨u, hreplay, hsame⟩ := hlockstep.ok_left hreplay'
    refine ⟨u, ks₁ ++ ks₂, replayAll_append.mpr ⟨t, ks₁, ks₂, hreplayA, hreplay, rfl⟩, ?_⟩
    exact (hrecomputed.append_iff (fun _ => get?_replayAll hreplay)
      (fun _ => get?_replayAll hreplay') hsame).mp hend
  · rintro ⟨u, ks, hreplayAll, hend⟩
    obtain ⟨t', ks₁', ks₂, hreplayA', hreplay, rfl⟩ := replayAll_append.mp hreplayAll
    cases hreplayA.symm.trans hreplayA'
    obtain ⟨u', hreplay', hsame⟩ := hlockstep.ok_right hreplay
    exact ⟨u', ks₂, hreplay', (hrecomputed.append_iff (fun _ => get?_replayAll hreplay)
      (fun _ => get?_replayAll hreplay') hsame).mpr hend⟩

/-- Three procedures that read and write at two partitions. -/
def counters : Catalog :=
  let statements : List Statement := [⟨0, "read", .select, [], []⟩, ⟨1, "write", .update, [], []⟩]
  ⟨2, [], [⟨0, "open", [], statements, false, false, none⟩,
    ⟨1, "add", [], statements, false, false, none⟩,
    ⟨2, "close", [], statements, false, false, none⟩]⟩

/-- Reads stay at partition 0, writes go to partition 1. -/
def countersRouter : Router := ⟨2, fun _ _ => .ok 0, fun _ s _ _ => .ok (.singleton (s.id % 2))⟩

/-- A transaction that reads, and perhaps writes. -/
def counted (txn : TxnId) (p : ProcedureId) (writes : Bool) : Trace :=
  let t := (Trace.start txn p []).push 0 [] 0
  if writes then t.push 1 [] 1 else t

/-- The first part reaches the graphs of the first two procedures, the second part those of the last
two. The graph in the middle has been recomputed twice, and one edge of it has half the hits of its
source. -/
theorem train_append_counters :
    ∃ s₁ s₂ : GraphStore Rat,
      train ∅ counters countersRouter [counted 1 0 true, counted 2 1 true] = .ok (s₁, .ok 2)
        ∧ s₁.train counters countersRouter [counted 3 1 false, counted 4 2 true] = .ok (s₂, .ok 2)
        ∧ train ∅ counters countersRouter
            ([counted 1 0 true, counted 2 1 true] ++ [counted 3 1 false, counted 4 2 true])
          = .ok (s₂, .ok (2 + 2))
        ∧ s₁.size = 2 ∧ s₂.size = 3
        ∧ (s₂.get? ⟨0, 1⟩).map (fun g => g.edges.toList.map (·.probability))
          = some [1, 1 / 2, 1, 1 / 2] := by
  -- A run that is seen to accept its traces has a store behind it.
  have haccepted : ∀ (x : Except Fault (GraphStore Rat × Except Error Nat)) (n size : Nat)
      (weights : Option (List Rat)),
      x.toOption.map (fun out => (out.2.toOption, out.1.size,
          (out.1.get? ⟨0, 1⟩).map fun g => g.edges.toList.map (·.probability)))
        = some (some n, size, weights) →
      ∃ s, x = .ok (s, .ok n) ∧ s.size = size
        ∧ (s.get? ⟨0, 1⟩).map (fun g => g.edges.toList.map (·.probability)) = weights := by
    rintro (f | ⟨s, e | m⟩) n size weights h
    · cases h
    · cases h
    · cases h
      exact ⟨s, rfl, rfl, rfl⟩
  obtain ⟨s₁, hA, hsize₁, _⟩ := haccepted
    (train ∅ counters countersRouter [counted 1 0 true, counted 2 1 true])
    2 2 (some [1, 1, 1]) (by decide +kernel)
  obtain ⟨s₂, hAB, hsize₂, hweights⟩ := haccepted
    (train ∅ counters countersRouter
      ([counted 1 0 true, counted 2 1 true] ++ [counted 3 1 false, counted 4 2 true]))
    (2 + 2) 3 (some [1, 1 / 2, 1, 1 / 2]) (by decide +kernel)
  exact ⟨s₁, s₂, hA, (train_append hA).mpr hAB, hAB, hsize₁, hsize₂, hweights⟩

end GraphStore

end TxnPath
