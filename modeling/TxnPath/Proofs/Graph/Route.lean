import Mathlib.Algebra.BigOperators.Group.List.Basic
import Mathlib.Algebra.BigOperators.Ring.List
import Mathlib.Tactic.Linarith
import TxnPath.Proofs.Graph.Derive

/-!
# `TxnPath.Proofs.Graph.Route`: sums over routes

A route is given by the numbers of its edges. It leads through vertices of one sort to a
vertex of another (`Graph.Route`), and weighs the product of its edges' probabilities.
`Graph.RouteSum` says that a number is the sum of the weights of all routes from a vertex. It
asks for a list of exactly these routes, so that there are only finitely many of them, and it
determines the number (`RouteSum.unique`).

`routeSum_of_equations` is how sums over routes are found. Along a list of vertices that
descends, numbers that satisfy the equation of the first step at every vertex are the sums.
-/

set_option autoImplicit false

namespace TxnPath.Graph

variable {g : Graph Rat} {skipped : List Nat} {through stop : Vertex Rat → Bool}

/-- The routes from a vertex along edges that are not skipped: all vertices but the last are
passed through, and the last is one to stop at. -/
inductive Route (g : Graph Rat) (skipped : List Nat) (through stop : Vertex Rat → Bool) :
    Nat → List Nat → Prop where
  | stop {v : Nat} {x : Vertex Rat} (hx : g.vertices[v]? = some x) (hstop : stop x = true) :
    Route g skipped through stop v []
  | step {v i : Nat} {x : Vertex Rat} {e : Edge Rat} {π : List Nat}
    (hx : g.vertices[v]? = some x) (hthrough : through x = true) (he : g.edges[i]? = some e)
    (hsource : e.source = v) (hkept : i ∉ skipped)
    (hrest : Route g skipped through stop e.target π) : Route g skipped through stop v (i :: π)

/-- The probability of an edge given by number. -/
def edgeProbability (g : Graph Rat) (i : Nat) : Rat := (g.edges[i]?).elim 0 Edge.probability

/-- The product of the probabilities of a route's edges. -/
def routeWeight (g : Graph Rat) (π : List Nat) : Rat := (π.map g.edgeProbability).prod

/-- The sum of a value over the ends of the edges that leave a vertex and are not skipped, each
weighted by the probability of its edge. -/
def expected (g : Graph Rat) (skipped : List Nat) (val : Nat → Rat) (v : Nat) : Rat :=
  ((g.kept skipped v).map fun e => e.1.probability * val e.1.target).sum

/-- A number is the sum of the weights of all routes from a vertex. There are finitely many of them,
as skipped edges break all cycles; they are listed, each once. -/
def RouteSum (g : Graph Rat) (skipped : List Nat) (through stop : Vertex Rat → Bool) (v : Nat)
    (x : Rat) : Prop :=
  ∃ routes : List (List Nat), routes.Nodup
    ∧ (∀ π, π ∈ routes ↔ Route g skipped through stop v π)
    ∧ x = (routes.map g.routeWeight).sum

/-- There is only one sum. -/
theorem RouteSum.unique {v : Nat} {x y : Rat} (hx : g.RouteSum skipped through stop v x)
    (hy : g.RouteSum skipped through stop v y) : x = y := by
  obtain ⟨routes, hnodup, hmem, rfl⟩ := hx
  obtain ⟨routes', hnodup', hmem', rfl⟩ := hy
  have hperm : routes.Perm routes' := (List.perm_ext_iff_of_nodup hnodup hnodup').mpr fun π =>
    (hmem π).trans (hmem' π).symm
  exact (hperm.map _).sum_eq

/-! ### The first step
-/

/-- A route ends at once, or follows an edge that is not skipped. This is the recursion by which
sums over routes are computed from those of the successors. -/
theorem route_iff {v : Nat} {x : Vertex Rat} (hx : g.vertices[v]? = some x) (π : List Nat) :
    Route g skipped through stop v π ↔
      stop x = true ∧ π = [] ∨ through x = true ∧ ∃ e i π', (e, i) ∈ g.kept skipped v
        ∧ Route g skipped through stop e.target π' ∧ π = i :: π' := by
  constructor
  · intro h
    cases h with
    | stop hx' hstop =>
      obtain rfl := Option.some.inj (hx.symm.trans hx')
      exact .inl ⟨hstop, rfl⟩
    | @step _ i _ e π hx' hthrough he hsource hkept hrest =>
      obtain rfl := Option.some.inj (hx.symm.trans hx')
      exact .inr ⟨hthrough, e, i, π, mem_kept.mpr ⟨he, hsource, hkept⟩, hrest, rfl⟩
  · rintro (⟨hstop, rfl⟩ | ⟨hthrough, e, i, π', he, hrest, rfl⟩)
    · exact .stop hx hstop
    · obtain ⟨he, hsource, hkept⟩ := mem_kept.mp he
      exact .step hx hthrough he hsource hkept hrest

/-- No edge leaves a vertex twice. -/
theorem nodup_kept (v : Nat) : ((g.kept skipped v).map Prod.snd).Nodup :=
  List.pairwise_map.mpr (((g.pairwise_outgoing v).sublist List.filter_sublist).imp Nat.ne_of_lt)

/-- A route weighs the probability of its first edge times what the rest of it weighs. -/
theorem routeWeight_cons {i : Nat} {e : Edge Rat} (he : g.edges[i]? = some e) (π : List Nat) :
    g.routeWeight (i :: π) = e.probability * g.routeWeight π := by
  rw [routeWeight, List.map_cons, List.prod_cons, edgeProbability, he]
  rfl

/-- The routes that begin with one of some edges, and the sum of their weights. Routes along
different edges are different, so that the lists can be put one behind the other. -/
theorem exists_routes_along {val : Nat → Rat} {es : List (Edge Rat × Nat)}
    (hnodup : (es.map Prod.snd).Nodup) (hedges : ∀ e i, (e, i) ∈ es → g.edges[i]? = some e)
    (hval : ∀ e i, (e, i) ∈ es → g.RouteSum skipped through stop e.target (val e.target)) :
    ∃ routes : List (List Nat), routes.Nodup
      ∧ (∀ π, π ∈ routes ↔ ∃ e i π', (e, i) ∈ es
          ∧ Route g skipped through stop e.target π' ∧ π = i :: π')
      ∧ (routes.map g.routeWeight).sum
        = (es.map fun e => e.1.probability * val e.1.target).sum := by
  induction es with
  | nil => exact ⟨[], List.nodup_nil, by simp, rfl⟩
  | cons ei es ih =>
    obtain ⟨e, i⟩ := ei
    rw [List.map_cons, List.nodup_cons] at hnodup
    obtain ⟨others, hothers, hmem, hsum⟩ := ih hnodup.2
      (fun e' j h => hedges e' j (List.mem_cons_of_mem _ h))
      (fun e' j h => hval e' j (List.mem_cons_of_mem _ h))
    obtain ⟨routes, hroutes, hmem', hsum'⟩ := hval e i List.mem_cons_self
    refine ⟨routes.map (i :: ·) ++ others, ?_, fun π => ?_, ?_⟩
    · have hlonger : (routes.map (i :: ·)).Nodup :=
        List.Pairwise.map _ (fun _ _ hne heq => hne (List.cons.inj heq).2) hroutes
      refine List.nodup_append.mpr ⟨hlonger, hothers, fun π hπ π' hπ' heq => ?_⟩
      -- The other routes begin with other edges.
      obtain ⟨_, _, rfl⟩ := List.mem_map.mp hπ
      obtain ⟨e', j, _, he', _, rfl⟩ := (hmem π').mp hπ'
      obtain rfl : i = j := (List.cons.inj heq).1
      exact hnodup.1 (List.mem_map.mpr ⟨(e', i), he', rfl⟩)
    · rw [List.mem_append, List.mem_map, hmem]
      constructor
      · rintro (⟨π', hπ', rfl⟩ | ⟨e', j, π', he', hπ', rfl⟩)
        · exact ⟨e, i, π', List.mem_cons_self, (hmem' π').mp hπ', rfl⟩
        · exact ⟨e', j, π', List.mem_cons_of_mem _ he', hπ', rfl⟩
      · rintro ⟨e', j, π', he', hπ', rfl⟩
        rcases List.mem_cons.mp he' with heq | he'
        · cases heq
          exact .inl ⟨π', (hmem' π').mpr hπ', rfl⟩
        · exact .inr ⟨e', j, π', he', hπ', rfl⟩
    · have hedge := hedges e i List.mem_cons_self
      have hfirst : ((routes.map (i :: ·)).map g.routeWeight).sum
          = e.probability * val e.target := by
        rw [List.map_map, hsum', ← List.sum_map_mul_left]
        exact congrArg List.sum (List.map_congr_left fun π _ => routeWeight_cons hedge π)
      rw [List.map_append, List.sum_append, hfirst, hsum, List.map_cons, List.sum_cons]

/-- The equation of the first step: a route that ends at once weighs one, and the others are
those from the ends of the edges, each made longer by its edge. -/
theorem RouteSum.of_successors {val : Nat → Rat} {v : Nat} {x : Vertex Rat}
    (hx : g.vertices[v]? = some x)
    (hval : ∀ e i, (e, i) ∈ g.kept skipped v →
      g.RouteSum skipped through stop e.target (val e.target)) :
    g.RouteSum skipped through stop v
      ((if stop x then 1 else 0) + if through x then g.expected skipped val v else 0) := by
  obtain ⟨routes, hnodup, hmem, hsum⟩ := exists_routes_along (nodup_kept v)
    (fun e i he => (mem_kept.mp he).1) hval
  have hcons : [] ∉ routes := fun hnil => by
    obtain ⟨_, _, _, _, _, h⟩ := (hmem []).mp hnil
    cases h
  refine ⟨(if stop x then [[]] else []) ++ if through x then routes else [], ?_, fun π => ?_, ?_⟩
  · cases stop x <;> cases through x <;> simp [hnodup, hcons]
  · rw [route_iff hx, ← hmem]
    cases stop x <;> cases through x <;> simp
  · rw [List.map_append, List.sum_append, expected, ← hsum]
    cases stop x <;> cases through x <;> simp [routeWeight]

/-- Numbers that satisfy the equation of the first step are the sums over routes. -/
theorem routeSum_of_equations (val : Nat → Rat) {order : List Nat}
    (hdescends : (g.shape.without skipped).Descends order)
    (hbounds : ∀ v ∈ order, v < g.vertices.size)
    (hval : ∀ v ∈ order, ∀ x, g.vertices[v]? = some x →
      val v = (if stop x then 1 else 0) + if through x then g.expected skipped val v else 0) :
    ∀ v ∈ order, g.RouteSum skipped through stop v (val v) := by
  refine hdescends.induction fun v hv hsuccs => ?_
  have hx := Array.getElem?_eq_getElem (hbounds v hv)
  rw [hval v hv _ hx]
  exact .of_successors hx fun e i he => hsuccs _ (arc_of_kept he) rfl

end TxnPath.Graph
