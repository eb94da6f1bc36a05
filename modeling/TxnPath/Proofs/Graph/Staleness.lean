import TxnPath.Proofs.Graph.Accepted
import TxnPath.Proofs.Graph.Ledger

/-!
# `TxnPath.Proofs.Graph.Staleness`: what the staleness test divides by

The staleness test divides the hits of the window by the transactions of the window, and the totals by
the other transactions that were counted. It takes those for the folded ones, but the transactions that
were in the window when it was forgotten are among them (`Graph.dropped`).

`counters_afterTurns` says what this makes of the counters after any number of accepted traces,
recomputations and resets. The window is right, and START has the hits of the folded transactions. They
are as many as the staleness test divides by exactly if every reset found an empty window.
-/

set_option autoImplicit false

namespace TxnPath

namespace Graph

variable {R : Type} {g g' : Graph R} {s : Sentinels} {folded window : List (List Nat)}

/-- What can be done to a graph between two checks for staleness. -/
inductive Turn where
  /-- Records a trace, which must be accepted. -/
  | trace (x : Sample)
  /-- Folds the window and derives probabilities. -/
  | recompute
  /-- Forgets the window. -/
  | reset

/-- The transactions that are in the window after some turns, the last one first. -/
def pending : List Turn → Nat
  | [] => 0
  | .trace _ :: earlier => pending earlier + 1
  | .recompute :: _ => 0
  | .reset :: _ => 0

/-- The transactions that were in the window when it was forgotten. -/
def dropped : List Turn → Nat
  | [] => 0
  | .trace _ :: earlier => dropped earlier
  | .recompute :: earlier => dropped earlier
  | .reset :: earlier => dropped earlier + pending earlier

/-- No transaction is dropped if every reset finds an empty window. -/
theorem dropped_eq_zero_iff {turns : List Turn} :
    dropped turns = 0 ↔ ∀ earlier, .reset :: earlier <:+ turns → pending earlier = 0 := by
  induction turns with
  | nil => simp [dropped]
  | cons t turns ih =>
    cases t with
    | trace x => simp [dropped, List.suffix_cons_iff, ih]
    | recompute => simp [dropped, List.suffix_cons_iff, ih]
    | reset => simp [dropped, List.suffix_cons_iff, or_imp, forall_and, ih, and_comm]

section Turns

variable [Scalar R] {turns : List Turn}

/-- The graph after a turn. -/
def Turn.run? (g : Graph R) : Turn → Option (Graph R)
  | .trace x =>
    match g.replay x.trace x.procedure x.router with
    | .ok (g', .ok _) => some g'
    | _ => none
  | .recompute => g.recompute.toOption
  | .reset => some g.resetWindow

/-- The graph after some turns, the last one first. -/
def afterTurns (g : Graph R) : List Turn → Option (Graph R)
  | [] => some g
  | t :: earlier => (g.afterTurns earlier).bind t.run?

/-- One turn leads from ledger to ledger. It is the step of the induction over turns: tracing adds a
path to the window, recomputing folds it, and resetting drops it. -/
theorem Ledger.turn {t : Turn} (h : g.Ledger s folded window (dropped turns))
    (hlength : window.length = pending turns) (hrun : t.run? g = some g') :
    ∃ folded' window', g'.Ledger s folded' window' (dropped (t :: turns))
      ∧ window'.length = pending (t :: turns) := by
  cases t with
  | trace x =>
    rw [Turn.run?] at hrun
    split at hrun
    case h_1 hreplay =>
      cases hrun
      exact ⟨folded, _, h.replay hreplay, congrArg (· + 1) hlength⟩
    case h_2 => cases hrun
  | recompute =>
    obtain ⟨g₁, hrun', hledger⟩ := h.recompute
    obtain rfl := Except.ok.inj (hrun'.symm.trans (Outcome.of_toOption hrun))
    exact ⟨_, [], hledger, rfl⟩
  | reset =>
    cases hrun
    -- The transactions of the window are dropped from both lists, and stay in the count.
    refine ⟨folded, [], ?_, rfl⟩
    rw [dropped, ← hlength]
    exact h.resetWindow

/-- Every sequence of turns keeps a ledger, by induction on the turns. -/
theorem Ledger.afterTurns {procedure : ProcedureId} {base partitions : Nat}
    (hrun : (fresh procedure base partitions : Graph R).afterTurns turns = some g) :
    ∃ folded window, g.Ledger ⟨0, 1, 2⟩ folded window (dropped turns)
      ∧ window.length = pending turns := by
  induction turns generalizing g with
  | nil =>
    cases hrun
    exact ⟨[], [], ledger_fresh .., rfl⟩
  | cons t turns ih =>
    obtain ⟨g₁, hrun, hturn⟩ := Option.bind_eq_some_iff.mp hrun
    obtain ⟨folded, window, hledger, hlength⟩ := ih hrun
    exact hledger.turn hlength hturn

/-- The counters of a fresh graph after accepted traces, recomputations and resets. The transactions
of the window are not more than those counted in all, and START was hit by each of them. Before that
START was hit by those transactions that were neither dropped nor are in the window, and as many hits
of every vertex are in the totals as these make. -/
theorem counters_afterTurns {procedure : ProcedureId} {base partitions : Nat}
    (hrun : (fresh procedure base partitions : Graph R).afterTurns turns = some g) :
    (∃ g', g.recompute = .ok g') ∧ g.windowTxns ≤ g.txns
      ∧ ∃ s folded window, g.sentinels = some s ∧ g.Ledger s folded window (dropped turns)
        ∧ g.windowHits s.start = g.windowTxns
        ∧ g.totalHits s.start + dropped turns = g.txns - g.windowTxns
        ∧ (g.totalHits s.start = g.txns - g.windowTxns
          ↔ ∀ earlier, .reset :: earlier <:+ turns → pending earlier = 0) := by
  obtain ⟨folded, window, hledger, _⟩ := Ledger.afterTurns hrun
  obtain ⟨g', hrecompute, _⟩ := hledger.recompute
  have htotal := hledger.totalHits_start
  have htxns := hledger.txns
  have hwindow := hledger.windowTxns
  refine ⟨⟨g', hrecompute⟩, by omega, ⟨0, 1, 2⟩, folded, window,
    hledger.sealed.initialized.placed, hledger, hledger.windowHits_start, by omega, ?_⟩
  rw [← dropped_eq_zero_iff]
  omega

end Turns

/-! ### A window that is forgotten -/

section Forgotten

open GraphRecord

/-- Three payments, which are all alike. The first is folded, and the second is in the window when it
is reset. The last turn comes first. -/
def forgotten : List Turn :=
  let paid := Turn.trace ⟨⟨1, 0, [], [⟨0, [], 0, false, none⟩], false⟩, payment, payRouter⟩
  [paid, .reset, paid, .recompute, paid]

/-- The second payment is taken for one that did not hit START. The graph seems to have drifted. -/
theorem afterTurns_forgotten : ∃ g : Graph Rat, (fresh 0 0 1).afterTurns forgotten = some g
    ∧ g.sentinels = some ⟨0, 1, 2⟩ ∧ g.totalHits 0 = 1 ∧ g.txns = 3 ∧ g.windowTxns = 1
    ∧ g.shouldRecompute (1 / 20) (1 / 2) = true := by
  have hrun : ((fresh 0 0 1 : Graph Rat).afterTurns forgotten).map (fun g => (g.sentinels,
      g.totalHits 0, g.txns, g.windowTxns, g.shouldRecompute (1 / 20) (1 / 2)))
        = some (some ⟨0, 1, 2⟩, 1, 3, 1, true) := by
    decide +kernel
  obtain ⟨g, hturns, hout⟩ := Option.map_eq_some_iff.mp hrun
  simp only [Prod.mk.injEq] at hout
  exact ⟨g, hturns, hout⟩

/-- One trace is folded, one is forgotten in the window, and one is in the window at the end. START
then has one hit less than the staleness test takes for folded. -/
theorem counters_afterTurns_forgotten :
    ∃ g : Graph Rat, (fresh 0 0 1).afterTurns forgotten = some g ∧ g.windowTxns ≤ g.txns
      ∧ ∃ s folded window, g.sentinels = some s ∧ g.Ledger s folded window 1
        ∧ g.windowHits s.start = g.windowTxns ∧ g.totalHits s.start + 1 = g.txns - g.windowTxns := by
  obtain ⟨g, hturns, _⟩ := afterTurns_forgotten
  obtain ⟨_, hle, s, folded, window, hs, hledger, hwindow, htotal, _⟩ := counters_afterTurns hturns
  exact ⟨g, hturns, hle, s, folded, window, hs, hledger, hwindow, htotal⟩

/-- The hits of START are not always those of the transactions outside the window. -/
theorem forgotten_counted :
    ¬ ∀ (turns : List Turn) (g : Graph Rat) (s : Sentinels),
      (fresh 0 0 1).afterTurns turns = some g → g.sentinels = some s →
        g.totalHits s.start = g.txns - g.windowTxns := by
  intro hall
  obtain ⟨g, hturns, hs, htotal, htxns, hwindow, _⟩ := afterTurns_forgotten
  have hstart := hall forgotten g ⟨0, 1, 2⟩ hturns hs
  rw [htotal, htxns, hwindow] at hstart
  cases hstart

end Forgotten

end Graph

end TxnPath
