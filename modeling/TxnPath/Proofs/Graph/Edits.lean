import TxnPath.Proofs.Graph.Recording
import TxnPath.Proofs.Graph.Tangled

/-!
# `TxnPath.Proofs.Graph.Edits`: what can be done to a graph

`Graph.Edit` lists the operations on a graph, and `Graph.Edit.run` does what each of them does, also
where it breaks off with an error. On an initialized graph an operation that gives a result either
records, or forgets the window, or derives probabilities with the window folded or not
(`Edit.run_cases`). What holds after every sequence of operations is therefore a matter of these
four.
-/

set_option autoImplicit false

namespace TxnPath

namespace Graph

/-- The operations on a graph. -/
inductive Edit where
  /-- Inserts the sentinels. -/
  | sentinels
  /-- Looks up the vertex of a call, or creates it. -/
  | call (c : Call)
  /-- Counts a step. -/
  | link (source target : Nat)
  /-- Records a query behind a vertex. -/
  | query (before : Nat) (q : Query) (p : Procedure) (r : Router) (called : List StatementId)
  /-- Records a trace. -/
  | trace (t : Trace) (p : Procedure) (r : Router)
  /-- Counts a finished transaction. -/
  | txn
  /-- Forgets the window. -/
  | reset
  /-- Derives probabilities without the window. -/
  | derive
  /-- Folds the window and derives probabilities. -/
  | recompute

variable {R : Type} [Scalar R] {g g' : Graph R} {s : Sentinels}

/-- The graph after an operation, also one that broke off with an error. -/
def Edit.run (g : Graph R) : Edit → Except Fault (Graph R)
  | .sentinels => g.insertSentinels
  | .call c => .ok (g.ensureCall c).1
  | .link u v => (g.link? u v).map Prod.fst
  | .query u q p r called =>
    (g.observe u q p r called).map fun
      | .error _ => g
      | .ok (g, _) => g
  | .trace t p r => (g.replay t p r).map Prod.fst
  | .txn => .ok g.recordTxn
  | .reset => .ok g.resetWindow
  | .derive => g.derive
  | .recompute => g.recompute

/-- The vertex that the operation is told to go on from. -/
def Edit.source? : Edit → Option Nat
  | .link u _ => some u
  | .query u .. => some u
  | _ => none

/-- An operation on an initialized graph records, forgets the window, or derives probabilities.
Steps are recorded from where the operation was told, and else from where no path ends. -/
theorem Edit.run_cases {e : Edit} (h : g.Initialized s) (hrun : e.run g = .ok g') :
    (∃ links, Recording g links g'
        ∧ ∀ p ∈ links, e.source? = some p.1 ∨ g'.isTerminal p.1 = false)
      ∨ e = .reset ∧ g' = g.resetWindow
      ∨ SameButTables g.unsetTables.weighEdges g'
      ∨ e = .recompute ∧ SameButTables g.foldWindow.unsetTables.weighEdges g' := by
  -- Creating, linking and replaying record. Sentinels cannot be inserted again, and the last three
  -- operations are the cases that record nothing.
  cases e with
  | sentinels =>
    rw [run, insertSentinels, h.placed] at hrun
    cases hrun
  | call c =>
    cases hrun
    exact .inl ⟨[], (Recording.refl g).call c, nofun⟩
  | link u v =>
    obtain ⟨⟨g₁, i⟩, hlink, rfl⟩ := Outcome.map_ok hrun
    exact .inl ⟨_, recording_link? hlink, List.forall_mem_singleton.mpr (.inl rfl)⟩
  | query u q p r called =>
    obtain ⟨result, hobserve, rfl⟩ := Outcome.map_ok hrun
    rcases result with e | ⟨g₁, step, called'⟩
    · exact .inl ⟨[], .refl g, nofun⟩
    · obtain ⟨links, hrecording, _, hsources⟩ := h.recording_observe hobserve
      refine .inl ⟨links, hrecording, fun p hp => (hsources p hp).imp_left fun heq => ?_⟩
      exact congrArg some heq.symm
  | trace t p r =>
    obtain ⟨⟨g₁, result⟩, hreplay, rfl⟩ := Outcome.map_ok hrun
    obtain ⟨links, hrecording, hsources⟩ := h.recording_replay hreplay
    exact .inl ⟨links, hrecording, fun p hp => .inr (hsources p hp)⟩
  | txn =>
    cases hrun
    exact .inl ⟨[], (Recording.refl g).txn, nofun⟩
  | reset =>
    cases hrun
    exact .inr (.inl ⟨rfl, rfl⟩)
  | derive => exact .inr (.inr (.inl (h.derive_same hrun).2))
  | recompute => exact .inr (.inr (.inr ⟨rfl, (h.foldWindow.derive_same hrun).2⟩))

end Graph

end TxnPath
