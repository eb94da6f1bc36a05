import TxnPath.Proofs.Graph.Accepted
import TxnPath.Proofs.Graph.Ledger

/-!
# `TxnPath.Proofs.Graph.Unchanged`: an unchanged workload is not stale

A trace that was accepted takes the same path in whatever has become of the graph, and creates nothing
there (`Graph.Repeats`). When the traces of a fresh graph were folded and come again, some number of
times and in any order, the window therefore has the hits of every vertex that many times
(`hits_repeated`), and so it has the transactions. Shares of hits are what they were before, exactly, and
no vertex has drifted however little is tolerated (`shouldRecompute_repeated`).
-/

set_option autoImplicit false

namespace TxnPath

namespace Scalar

/-- Nothing is at a distance from itself. -/
theorem distance_self (a : Rat) : distance a a = 0 := by
  show (if a - a < 0 then 0 - (a - a) else a - a) = 0
  rw [sub_self, if_neg (lt_irrefl _)]

/-- No share of anything is taken by zero, not even of zero. -/
theorem ratio_zero (b : Nat) : (ratio 0 b : Rat) = 0 := by
  show ((0 : Nat) : Rat) / (b : Rat) = 0
  rw [Nat.cast_zero, zero_div]

/-- A share of so many times the whole is the share of the whole. -/
theorem ratio_mul {m : Nat} (hm : m ≠ 0) (a b : Nat) : (ratio (m * a) (m * b) : Rat) = ratio a b := by
  show ((m * a : Nat) : Rat) / ((m * b : Nat) : Rat) = (a : Rat) / (b : Rat)
  rw [Nat.cast_mul, Nat.cast_mul, mul_div_mul_left _ _ (Nat.cast_ne_zero.mpr hm)]

end Scalar

namespace Graph

variable {R : Type} {g g' k : Graph R} {s : Sentinels} {folded window : List (List Nat)} {n : Nat}
  {samples copies : List Sample}

/-! ### Traces that come again -/

section Again

variable [Zero R]

/-- The path on which a trace is recorded. -/
def pathOf (g : Graph R) (x : Sample) : List Nat := g.replayPath x.trace x.procedure x.router

/-- The path of a sample that is accepted is the one that replaying answers with. -/
theorem pathOf_eq {x : Sample} {path : List Nat}
    (hrun : g.replay x.trace x.procedure x.router = .ok (g', .ok path)) : g.pathOf x = path := by
  rw [replay] at hrun
  obtain ⟨s, hs, hrun⟩ := Outcome.bind_ok hrun
  obtain ⟨⟨g₁, visited, stop⟩, hqueries, hrun⟩ := Outcome.bind_ok hrun
  rw [pathOf, replayPath, requireSentinels_ok_iff.mp hs]
  dsimp only
  rw [hqueries]
  rcases stop with e | _ | _ <;> cases hrun <;> rfl

/-- A trace takes one path in whatever becomes of the graph, and creates nothing there. -/
def Repeats (g : Graph R) (x : Sample) : Prop :=
  ∀ h, Extends g h → ∃ h', h.replay x.trace x.procedure x.router = .ok (h', .ok (g.pathOf x))
    ∧ SameLayout h h'

/-- A trace that was accepted takes its path again. -/
theorem Extends.repeats {x : Sample} {path : List Nat} (hext : Extends g' k)
    (hrun : g.replay x.trace x.procedure x.router = .ok (g', .ok path)) :
    k.Repeats x ∧ k.pathOf x = path := by
  obtain ⟨k', hagain, _⟩ := hext.replay_again hrun
  have hpath := pathOf_eq hagain
  refine ⟨fun h hk => ?_, hpath⟩
  rw [hpath]
  exact (hext.trans hk).replay_again hrun

/-- Accepting traces only adds to a graph. -/
theorem Initialized.extends_accepts (h : g.Initialized s) (haccepts : g.Accepts samples g') :
    g'.Initialized s ∧ Extends g g' := by
  refine haccepts.keep (I := fun k => k.Initialized s ∧ Extends g k) ?_ ⟨h, .refl g⟩
  rintro x - k k' result hrun ⟨hinit, hext⟩
  obtain ⟨_, hrecording, _⟩ := hinit.recording_replay hrun
  exact ⟨hrecording.initialized hinit, hext.trans hrecording.extends⟩

/-- Samples that were accepted repeat their paths in whatever the graph grows into: by induction on
the samples, each was accepted in a graph that is extended by the ones after it. -/
theorem Initialized.repeats_accepts (h : g.Initialized s) (haccepts : g.Accepts samples g')
    (hext : Extends g' k) : ∀ x ∈ samples, k.Repeats x := by
  induction haccepts with
  | nil => exact nofun
  | cons hrun hrest ih =>
    obtain ⟨_, hrecording, _⟩ := h.recording_replay hrun
    have hinit := hrecording.initialized h
    have hfirst := ((hinit.extends_accepts hrest).2.trans hext).repeats hrun
    exact List.forall_mem_cons.mpr ⟨hfirst.1, ih hinit hext⟩

/-- Traces that repeat are accepted again, in any order. -/
theorem accepts_again (hrepeats : ∀ x ∈ copies, g.Repeats x) (hext : Extends g k) :
    ∃ k', k.Accepts copies k' ∧ SameLayout k k' := by
  induction copies generalizing k with
  | nil => exact ⟨k, .nil k, .refl k⟩
  | cons x copies ih =>
    obtain ⟨hx, hrepeats⟩ := List.forall_mem_cons.mp hrepeats
    obtain ⟨k₁, hrun, hsame⟩ := hx k hext
    obtain ⟨k', haccepts, hsame'⟩ := ih hrepeats (hext.trans hsame.extends)
    exact ⟨k', .cons hrun haccepts, hsame.trans hsame'⟩

/-- Traces that are accepted add their paths to the window, the last one first. -/
theorem Ledger.accepts (h : g.Ledger s folded window n) (haccepts : g.Accepts samples g')
    (hext : Extends g' k) :
    g'.Ledger s folded ((samples.map k.pathOf).reverse ++ window) n := by
  induction haccepts generalizing window with
  | nil => exact h
  | cons hrun hrest ih =>
    have hfirst := h.replay hrun
    have hrepeats := ((hfirst.sealed.initialized.extends_accepts hrest).2.trans hext).repeats hrun
    rw [List.map_cons, List.reverse_cons, List.append_assoc, hrepeats.2]
    exact ih hfirst hext

end Again

/-! ### Windows that repeat what was folded -/

/-- Each copy of some paths hits a vertex as they do. -/
theorem hitsBy_copies (g : Graph R) (m : Nat) (paths : List (List Nat)) (v : Nat) :
    g.hitsBy ((List.replicate m paths).flatten.flatMap stepsOf) v
      = m * g.hitsBy (paths.flatMap stepsOf) v := by
  induction m with
  | zero => rw [List.replicate_zero, List.flatten_nil, List.flatMap_nil, hitsBy_nil, Nat.zero_mul]
  | succ m ih =>
    rw [List.replicate_succ, List.flatten_cons, List.flatMap_append, hitsBy_append, ih, Nat.succ_mul,
      Nat.add_comm]

/-- A window of copies has the hits and the transactions that were folded, once per copy. -/
theorem Ledger.repeated {m : Nat} {paths : List (List Nat)} (h : g.Ledger s folded window 0)
    (hfolded : folded.Perm paths) (hwindow : window.Perm (List.replicate m paths).flatten) :
    (∀ v, g.windowHits v = m * g.totalHits v) ∧ g.txns - g.windowTxns = paths.length
      ∧ g.windowTxns = m * paths.length := by
  refine ⟨fun v => ?_, ?_, ?_⟩
  · rw [h.recent, g.hitsBy_perm (hwindow.flatMap_right stepsOf), hitsBy_copies, h.total,
      g.hitsBy_perm (hfolded.flatMap_right stepsOf)]
  · rw [h.txns, h.windowTxns, ← hfolded.length_eq]
    omega
  · rw [h.windowTxns, hwindow.length_eq, List.length_flatten, List.map_replicate,
      List.sum_replicate_nat]

/-- When traces were folded in a fresh graph, copies of them are accepted, in any order, without a new
vertex or edge. The window then has the hits and the transactions that were folded, once per copy. -/
theorem hits_repeated [Scalar R] {procedure : ProcedureId} {base partitions m : Nat}
    (haccepts : (fresh procedure base partitions : Graph R).Accepts samples g)
    (hcopies : copies.Perm (List.replicate m samples).flatten) :
    ∃ g₁, g.recompute = .ok g₁ ∧ ∃ g₂, g₁.Accepts copies g₂ ∧ SameLayout g₁ g₂
      ∧ (∀ v, g₂.windowHits v = m * g₂.totalHits v)
      ∧ g₂.txns - g₂.windowTxns = samples.length ∧ g₂.windowTxns = m * samples.length := by
  have hfresh := ledger_fresh (R := R) procedure base partitions
  obtain ⟨hinit, _⟩ := hfresh.sealed.initialized.extends_accepts haccepts
  obtain ⟨g₁, hrun, _⟩ := (hfresh.accepts haccepts (.refl g)).recompute
  have hlayout : SameLayout g g₁ :=
    (sameLayout_foldWindow g).trans (hinit.foldWindow.derive_same hrun).2.sameLayout
  have hrepeats : ∀ x ∈ copies, g.Repeats x := fun x hx => by
    obtain ⟨l, hl, hx⟩ := List.mem_flatten.mp (hcopies.mem_iff.mp hx)
    rw [List.eq_of_mem_replicate hl] at hx
    exact hfresh.sealed.initialized.repeats_accepts haccepts (.refl g) x hx
  obtain ⟨g₂, hagain, hsame⟩ := accepts_again hrepeats hlayout.extends
  -- The paths are those of the last graph, so that they are the same for traces and copies.
  have hfirst := hfresh.accepts haccepts (hlayout.trans hsame).extends
  obtain ⟨g₁', hrun', hfolded⟩ := hfirst.recompute
  obtain rfl := Except.ok.inj (hrun.symm.trans hrun')
  have hledger := hfolded.accepts hagain (.refl g₂)
  rw [List.append_nil, List.append_nil, List.append_nil] at hledger
  have hwindow : (copies.map g₂.pathOf).reverse.Perm
      (List.replicate m (samples.map g₂.pathOf)).flatten := by
    rw [← List.map_replicate, ← List.map_flatten]
    exact (List.reverse_perm _).trans (hcopies.map g₂.pathOf)
  have hcounted := hledger.repeated (List.reverse_perm _) hwindow
  rw [List.length_map] at hcounted
  exact ⟨g₁, hrun, g₂, hagain, hsame, hcounted⟩

/-! ### In exact arithmetic -/

section Exact

variable {tolerance proportion : Rat}

/-- A vertex with its share of hits once more, or several times, has not drifted. The ratio of hits
to transactions is the same in the window and before, so that the two have distance zero. -/
theorem isStale_repeated {x : Vertex Rat} {m windowTxns foldedTxns : Nat}
    (hhits : x.windowHits = m * x.totalHits) (htxns : windowTxns = m * foldedTxns)
    (htolerance : 0 ≤ tolerance) : x.isStale windowTxns tolerance foldedTxns = false := by
  rw [Vertex.isStale]
  split
  case isTrue => rfl
  case isFalse hwindow =>
  have hpos := Nat.pos_of_ne_zero (htxns ▸ hwindow)
  have hm : m ≠ 0 := (Nat.pos_of_mul_pos_right hpos).ne'
  have hfolded : foldedTxns ≠ 0 := (Nat.pos_of_mul_pos_left hpos).ne'
  split
  case isTrue hnone =>
    rw [hhits, hnone.resolve_right hfolded, Nat.mul_zero]
    rfl
  case isFalse =>
    rw [hhits, htxns, Scalar.ratio_mul hm, Scalar.distance_self]
    exact decide_eq_false (not_lt.mpr htolerance)

/-- A graph of which no vertex has drifted is not stale. The part of vertices that have drifted is
zero, and less than any positive proportion. -/
theorem shouldRecompute_eq_false {g : Graph Rat}
    (hsteady : ∀ x ∈ g.vertices, x.isStale g.windowTxns tolerance (g.txns - g.windowTxns) = false)
    (hproportion : 0 < proportion) : g.shouldRecompute tolerance proportion = false := by
  rw [shouldRecompute]
  split
  case isTrue => rfl
  case isFalse =>
    have hnone : g.vertices.toList.filter
        (fun x => x.isStale g.windowTxns tolerance (g.txns - g.windowTxns)) = [] := by
      refine List.filter_eq_nil_iff.mpr fun x hx => ?_
      rw [hsteady x (Array.mem_toList_iff.mp hx)]
      exact Bool.false_ne_true
    dsimp only
    rw [hnone, List.length_nil, Scalar.ratio_zero]
    exact decide_eq_false (not_le.mpr hproportion)

/-- An unchanged workload is not stale. When traces were folded in a fresh graph, and all of them
come again some number of times in any order, they create no vertex and hit every vertex as often as
they did at first, each time that they come. The graph has not drifted then, however little is
tolerated. -/
theorem shouldRecompute_repeated {procedure : ProcedureId} {base partitions m : Nat} {g : Graph Rat}
    (haccepts : (fresh procedure base partitions : Graph Rat).Accepts samples g)
    (hcopies : copies.Perm (List.replicate m samples).flatten) :
    ∃ g₁, g.recompute = .ok g₁ ∧ ∃ g₂, g₁.Accepts copies g₂ ∧ SameLayout g₁ g₂
      ∧ g₂.windowTxns = m * samples.length
      ∧ ∀ tolerance proportion : Rat, 0 ≤ tolerance → 0 < proportion →
        g₂.shouldRecompute tolerance proportion = false := by
  obtain ⟨g₁, hrun, g₂, hagain, hsame, hhits, hfolded, hwindow⟩ := hits_repeated haccepts hcopies
  refine ⟨g₁, hrun, g₂, hagain, hsame, hwindow, fun tolerance proportion htolerance hproportion => ?_⟩
  refine shouldRecompute_eq_false (fun x hx => ?_) hproportion
  obtain ⟨v, hv⟩ := Array.mem_iff_getElem?.mp hx
  have hvertex := hhits v
  rw [windowHits, totalHits_eq, hv] at hvertex
  exact isStale_repeated hvertex (hfolded ▸ hwindow) htolerance

section Payments

open GraphRecord

/-- One payment that commits, and one of two debits that aborts. -/
def paidOnce : Sample := ⟨⟨1, 0, [], [⟨0, [], 0, false, none⟩], false⟩, payment, payRouter⟩

def paidTwice : Sample :=
  ⟨⟨2, 0, [], [⟨0, [], 0, false, none⟩, ⟨0, [], 1, true, none⟩], false⟩, payment, payRouter⟩

/-- Both come twice again, in another order. -/
theorem shouldRecompute_repeated_payments :
    ∃ g g₁ g₂ : Graph Rat, (fresh 0 0 1).Accepts [paidOnce, paidTwice] g ∧ g.recompute = .ok g₁
      ∧ g₁.Accepts [paidTwice, paidOnce, paidOnce, paidTwice] g₂ ∧ SameLayout g₁ g₂
      ∧ g₂.windowTxns = 4 ∧ ∀ tolerance proportion : Rat, 0 ≤ tolerance → 0 < proportion →
        g₂.shouldRecompute tolerance proportion = false := by
  have hrun : (((fresh 0 0 1 : Graph Rat).replay paidOnce.trace payment payRouter).toOption.bind
      fun out => (out.1.replay paidTwice.trace payment payRouter).toOption.map
        fun out' => (out.2.toOption, out'.2.toOption)) = some (some [0, 3, 1], some [0, 3, 4, 2]) := by
    decide +kernel
  obtain ⟨⟨g₀, first⟩, hfirst, hrun⟩ := Option.bind_eq_some_iff.mp hrun
  obtain ⟨⟨g, second⟩, hsecond, hout⟩ := Option.map_eq_some_iff.mp hrun
  obtain ⟨hpath, hpath'⟩ := Prod.mk.inj hout
  obtain rfl := Outcome.of_toOption hpath
  obtain rfl := Outcome.of_toOption hpath'
  -- The two traces are recorded one after the other, so that the list of both is accepted.
  have haccepts : (fresh 0 0 1 : Graph Rat).Accepts [paidOnce, paidTwice] g :=
    .cons (Outcome.of_toOption hfirst) (.cons (Outcome.of_toOption hsecond) (.nil g))
  have hcopies : [paidTwice, paidOnce, paidOnce, paidTwice].Perm
      (List.replicate 2 [paidOnce, paidTwice]).flatten := .swap paidOnce paidTwice _
  obtain ⟨g₁, hrecompute, g₂, hagain, hsame, hwindow, hsteady⟩ :=
    shouldRecompute_repeated haccepts hcopies
  exact ⟨g, g₁, g₂, haccepts, hrecompute, hagain, hsame, hwindow, hsteady⟩

end Payments

end Exact

end Graph

end TxnPath
