import Mathlib.Data.List.Chain
import TxnPath.Proofs.Graph.Recorded
import TxnPath.Proofs.Walk.Itinerary

/-!
# `TxnPath.Proofs.Walk.Path`: the path of a walk

Nothing counts the steps of a walk. It ends because it goes nowhere twice: the path walked so far
(`Journey.Walked`) follows edges and repeats no vertex, so that it is no longer than the graph has
vertices, and a path that is as long as this leads nowhere (`Walked.stuck`).

`Journey.walked_itinerary` concludes that the itinerary of a walk is such a path, and that where it
ends the walk cannot go on.
-/

set_option autoImplicit false

namespace TxnPath

variable {R : Type}

/-- An edge leads from the first vertex to the second. -/
def Graph.Joins (g : Graph R) (u v : Nat) : Prop := ∃ e ∈ g.edges, e.source = u ∧ e.target = v

namespace Journey

/-- A path that a walk may have taken. It follows edges and comes to no vertex twice, so that it is
no longer than there are vertices. -/
structure Walked (j : Journey R) (path : List Nat) : Prop where
  inside : ∀ v ∈ path, v < j.graph.vertices.size
  joined : path.IsChain j.graph.Joins
  nodup : path.Nodup

variable {j : Journey R} {s : Sentinels} {path : List Nat} {u v : Nat}

/-- A walk that has only set out is a path. -/
theorem walked_singleton (hv : v < j.graph.vertices.size) : j.Walked [v] where
  inside := List.forall_mem_singleton.mpr hv
  joined := .singleton v
  nodup := List.nodup_singleton v

/-- The vertices of a path are among those of the graph. -/
theorem Walked.subperm (h : j.Walked path) :
    path.Subperm (List.range j.graph.vertices.size) :=
  List.subperm_of_subset h.nodup fun v hv => List.mem_range.mpr (h.inside v hv)

/-- No path is longer than there are vertices, since none comes twice. -/
theorem Walked.length_le (h : j.Walked path) : path.length ≤ j.graph.vertices.size :=
  List.length_range (n := j.graph.vertices.size) ▸ h.subperm.length_le

/-- A path of all vertices. -/
theorem Walked.whole (h : j.Walked path) (hlong : j.graph.vertices.size ≤ path.length)
    (hv : v < j.graph.vertices.size) : v ∈ path :=
  (h.subperm.perm_of_length_le (List.length_range.trans_le hlong)).mem_iff.mpr
    (List.mem_range.mpr hv)

variable [Scalar R]

/-- A walk goes on along an edge to a vertex where it has not been. -/
theorem next?_spec (h : j.next? path v = some u) : j.graph.Joins v u ∧ u ∉ path := by
  unfold next? at h
  split at h
  · cases h
  · obtain ⟨e, he, rfl⟩ := Option.map_eq_some_iff.mp h
    obtain ⟨hedge, hsource, hnew⟩ := candidates_spec (List.mem_of_mem_head? he)
    exact ⟨⟨e, hedge, hsource, rfl⟩, hnew⟩

/-- Where a walk does not go on, paths end or there is no edge to take. -/
theorem next?_eq_none (h : j.graph.Initialized s) :
    j.next? path v = none ↔ v = s.commit ∨ v = s.abort ∨ (j.candidates path v).1 = [] := by
  rw [next?, ← or_assoc, ← Graph.isTerminal_iff h]
  by_cases hend : j.graph.isTerminal v
  · simp [hend]
  · simp [hend]

/-- Going on makes a path longer by one vertex. The new vertex was not visited before, and an edge
leads to it from the last one. -/
theorem Walked.next (h : j.Walked path) (hinit : j.graph.Initialized s)
    (hlast : path.getLast? = some v) (hnext : j.next? path v = some u) :
    j.Walked (path ++ [u]) := by
  obtain ⟨hjoins, hnew⟩ := next?_spec hnext
  obtain ⟨e, hedge, _, rfl⟩ := id hjoins
  refine ⟨fun w hw => ?_, ?_, ?_⟩
  · rcases List.mem_append.mp hw with hold | hlatest
    · exact h.inside w hold
    · exact List.mem_singleton.mp hlatest ▸ (hinit.edges e hedge).2
  · refine h.joined.append (.singleton _) fun x hx y hy => ?_
    cases hlast.symm.trans hx
    cases hy
    exact hjoins
  · exact List.nodup_append.mpr ⟨h.nodup, List.nodup_singleton _, fun x hx y hy hxy =>
      hnew (List.mem_singleton.mp hy ▸ hxy ▸ hx)⟩

/-- A path that has been everywhere leads nowhere. -/
theorem Walked.stuck (h : j.Walked path) (hinit : j.graph.Initialized s)
    (hlong : j.graph.vertices.size ≤ path.length) : j.next? path v = none := by
  cases hnext : j.next? path v with
  | none => rfl
  | some u =>
    obtain ⟨⟨e, hedge, _, rfl⟩, hnew⟩ := next?_spec hnext
    exact absurd (h.whole hlong (hinit.edges e hedge).2) hnew

/-- A walk that has room for as many steps as vertices are left ends for want of a next one. It does
not end because the room is used up: a path that visits all vertices has none left to go to. -/
theorem Walked.onward {fuel : Nat} (h : j.Walked path) (hinit : j.graph.Initialized s)
    (hlast : path.getLast? = some v) (hroom : j.graph.vertices.size ≤ path.length + fuel) :
    j.Walked (path ++ j.onward fuel path v)
      ∧ ∃ u, (path ++ j.onward fuel path v).getLast? = some u
        ∧ j.next? (path ++ j.onward fuel path v) u = none := by
  -- Path and room together stay as large as the graph: each step moves one from here to there.
  induction fuel generalizing path v with
  | zero =>
    rw [Journey.onward, List.append_nil]
    exact ⟨h, v, hlast, h.stuck hinit hroom⟩
  | succ fuel ih =>
    rw [Journey.onward]
    cases hnext : j.next? path v with
    | none =>
      dsimp only
      rw [List.append_nil]
      exact ⟨h, v, hlast, hnext⟩
    | some u =>
      have hfurther := ih (h.next hinit hlast hnext) List.getLast?_concat
        (by rw [List.length_append, List.length_singleton]; omega)
      rwa [List.append_assoc] at hfurther

/-- The itinerary of a walk follows edges, repeats no vertex, and ends where the walk cannot go
on. -/
theorem walked_itinerary (hinit : j.graph.Initialized s) (hv : v < j.graph.vertices.size) :
    j.Walked (j.itinerary v)
      ∧ ∃ u, (j.itinerary v).getLast? = some u ∧ j.next? (j.itinerary v) u = none :=
  (walked_singleton hv).onward hinit rfl (Nat.le_add_left _ _)

end Journey

end TxnPath
