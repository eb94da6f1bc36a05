import TxnPath.Proofs.Graph.Recorded

/-!
# `TxnPath.Proofs.Graph.Accepted`: graphs that accepted traces

A graph accepts traces if each of them is recorded completely (`Graph.Accepts`). The paths that it
holds then all come to an end (`Recorded.accepts`), so that an edge leaves every vertex that a path
comes to, COMMIT and ABORT apart (`Recorded.leaves`). Every edge leads to such a vertex
(`Recorded.enters`).
-/

set_option autoImplicit false

namespace TxnPath.Graph

variable {R : Type} {g g' : Graph R} {s : Sentinels} {paths : List (List Nat)} {π : List Nat}
  {n v : Nat}

/-- A trace, with the procedure and the router that it is replayed by. -/
structure Sample where
  trace : Trace
  procedure : Procedure
  router : Router

/-- Traces are recorded completely, one after the other. -/
inductive Accepts [Zero R] : Graph R → List Sample → Graph R → Prop
  | nil (g : Graph R) : Accepts g [] g
  | cons {g g₁ g' : Graph R} {x : Sample} {rest : List Sample} {path : List Nat} :
    g.replay x.trace x.procedure x.router = .ok (g₁, .ok path) → Accepts g₁ rest g' →
      Accepts g (x :: rest) g'

/-- Each trace adds a path, to ABORT if it aborted and else to COMMIT. Paths are listed the last one
first, and therefore their ends come in reverse order of the samples. -/
theorem Recorded.accepts [Zero R] {samples : List Sample} (h : g.Recorded s paths n)
    (haccepts : g.Accepts samples g') :
    ∃ new, g'.Recorded s (new ++ paths) (n + samples.length)
      ∧ new.map List.getLast? = (samples.map fun x => x.trace.isAborted).reverse.map
        fun aborted => some (if aborted then s.abort else s.commit) := by
  induction haccepts generalizing paths n with
  | nil g => exact ⟨[], h, rfl⟩
  | @cons _ _ _ x rest path hreplay _ ih =>
    obtain ⟨hadded, hpath⟩ := h.replay hreplay
    obtain ⟨heq, hend⟩ := hpath path rfl
    obtain ⟨new, hall, hlast⟩ := ih hadded
    refine ⟨new ++ [path], ?_, ?_⟩
    · rw [List.append_assoc, List.length_cons, Nat.add_comm rest.length, ← Nat.add_assoc, heq]
      exact hall
    · simp only [List.map_cons, List.map_nil, List.reverse_cons, List.map_append, hlast, hend]

/-- What survives replaying each of some traces survives their acceptance. -/
theorem Accepts.keep [Zero R] {I : Graph R → Prop} {samples : List Sample}
    (haccepts : g.Accepts samples g')
    (hkeep : ∀ x ∈ samples, ∀ {g g' result},
      g.replay x.trace x.procedure x.router = .ok (g', result) → I g → I g')
    (h : I g) : I g' := by
  induction haccepts with
  | nil g => exact h
  | cons hreplay _ ih =>
    obtain ⟨hfirst, hrest⟩ := List.forall_mem_cons.mp hkeep
    exact ih hrest (hfirst hreplay h)

/-- A path that has come to its end has gone on from every other vertex that it came to. So none of
these is without an edge that leaves it. -/
theorem Recorded.leaves (h : g.Recorded s paths n) (hπ : π ∈ paths)
    (hend : ∃ u, π.getLast? = some u ∧ g.isTerminal u = true) (hv : v ∈ π)
    (hinner : g.isTerminal v = false) : ∃ e ∈ g.edges, e.source = v := by
  obtain ⟨u, hlast, hterminal⟩ := hend
  obtain ⟨ρ, rfl⟩ := List.getLast?_eq_some_iff.mp hlast
  have hbefore : v ∈ (ρ ++ [u]).dropLast := by
    rw [List.dropLast_concat]
    refine (List.mem_append.mp hv).resolve_right fun hmem => ?_
    rw [List.mem_singleton.mp hmem, hterminal] at hinner
    cases hinner
  obtain ⟨p, hp, rfl⟩ := List.mem_map.mp (map_fst_stepsOf (ρ ++ [u]) ▸ hbefore)
  obtain ⟨e, he, rfl⟩ := List.mem_map.mp
    ((h.tallied.covered p).mp (List.mem_flatMap.mpr ⟨_, hπ, hp⟩))
  exact ⟨e, Array.mem_toList_iff.mp he, rfl⟩

/-- An edge leads to where some path came. -/
theorem Recorded.enters (h : g.Recorded s paths n) {e : Edge R} (he : e ∈ g.edges) :
    ∃ π ∈ paths, e.target ∈ π := by
  obtain ⟨π, hπ, hstep⟩ := List.mem_flatMap.mp
    ((h.tallied.covered e.ends).mpr (List.mem_map_of_mem (Array.mem_toList_iff.mpr he)))
  have htarget : e.target ∈ π.tail := map_snd_stepsOf π ▸ List.mem_map_of_mem (f := Prod.snd) hstep
  exact ⟨π, hπ, List.mem_of_mem_tail htarget⟩

end TxnPath.Graph
