import TxnPath.Proofs.Graph.Initialized
import TxnPath.Proofs.Histogram.Rounds
import TxnPath.Proofs.Outcome
import TxnPath.Proofs.Walk.Candidates

/-!
# `TxnPath.Proofs.Walk.Itinerary`: where a walk goes, and when it fails

Which edge a walk takes depends on the graph, the arguments and the vertices visited, and not
on the estimate that the walk makes on its way. `Journey.itinerary` lists the vertices that a
walk comes to without making the estimate.

The estimate counts touches of the graph's partitions. A walk visits no more vertices than its
graph has, so that the counters stay in their range, and all that can go wrong is a call that
touches a partition outside the graph: a walk fails exactly if there is such a call on its
itinerary (`Walker.traverse_error_iff`).
-/

set_option autoImplicit false

namespace TxnPath

variable {R : Type}

/-- The vertex stands for no call, or for one that touches partitions of the graph only. -/
def Graph.InRange (g : Graph R) (v : Nat) : Prop :=
  ∀ c, g.kind? v = some (.query c) → ∀ p ∈ c.partitions, p < g.partitions

/-- A walker that has not been sent out since it was made or put away. -/
structure Walker.Rested (w : Walker R) : Prop where
  idle : w.isInitialized = false
  unvisited : w.visited = []

namespace Graph

variable {g : Graph R} {v : Nat} {x : Vertex R}

/-- A call touches its partitions. -/
theorem inRange_query {c : Call} (hx : g.vertices[v]? = some x) (hkind : x.kind = .query c) :
    g.InRange v ↔ ∀ p ∈ c.partitions.toList, p < g.partitions := by
  have hv : g.kind? v = some (.query c) := by rw [kind?, hx, Option.map_some, hkind]
  refine ⟨fun h => h c hv, fun h c' hc' => ?_⟩
  rw [hv] at hc'
  cases hc'
  exact h

/-- A sentinel touches nothing. -/
theorem inRange_of_not_query (hx : g.vertices[v]? = some x) (hkind : ∀ c, x.kind ≠ .query c) :
    g.InRange v := by
  intro c hc
  rw [kind?, hx] at hc
  exact absurd (Option.some.inj hc) (hkind c)

end Graph

variable [Scalar R]

/-- A new walker has not been anywhere. -/
theorem Walker.rested_new : (Walker.new : Walker R).Rested := ⟨rfl, rfl⟩

/-- A walker that has finished is as good as new in this respect. -/
theorem Walker.rested_finish (w : Walker R) : w.finish.Rested := ⟨rfl, rfl⟩

/-! ### The vertices that a walk comes to -/

namespace Journey

/-- Where a walk goes from a vertex, if it goes on. -/
def next? (j : Journey R) (visited : List Nat) (v : Nat) : Option Nat :=
  if j.graph.isTerminal v then none else (j.candidates visited v).1.head?.map Edge.target

/-- The vertices that a walk comes to from a vertex in at most `fuel` steps. -/
def onward (j : Journey R) : Nat → List Nat → Nat → List Nat
  | 0, _, _ => []
  | fuel + 1, visited, v =>
    match j.next? visited v with
    | none => []
    | some u => u :: j.onward fuel (visited ++ [u]) u

/-- The vertices that a walk visits, in order. -/
def itinerary (j : Journey R) (origin : Nat) : List Nat :=
  origin :: j.onward j.graph.vertices.size [origin] origin

end Journey

/-! ### Visiting a vertex -/

namespace Walker

variable {j : Journey R} {g : Graph R} {s : Sentinels} {w : Walker R} {v k : Nat}

/-- Another walker has visited the same vertices and counted the same touches. -/
structure SameTrail (w w' : Walker R) : Prop where
  visited : w'.visited = w.visited
  touched : w'.estimate.touched = w.estimate.touched

omit [Scalar R] in
/-- A walker is where it is. -/
theorem SameTrail.refl (w : Walker R) : SameTrail w w := ⟨rfl, rfl⟩

omit [Scalar R] in
/-- Two changes that do not move the walker do not move it together. -/
theorem SameTrail.trans {w' w'' : Walker R} (h : SameTrail w w') (h' : SameTrail w' w'') :
    SameTrail w w'' :=
  ⟨h'.visited.trans h.visited, h'.touched.trans h.touched⟩

omit [Scalar R] in
/-- Nor do any number of them. -/
theorem SameTrail.foldl {f : Walker R → Nat → Walker R} (hf : ∀ w p, SameTrail w (f w p))
    (ps : List Nat) (w : Walker R) : SameTrail w (ps.foldl f w) := by
  induction ps generalizing w with
  | nil => exact .refl w
  | cons p ps ih => exact (hf w p).trans (ih (f w p))

/-- Noting a read is part of the estimate. -/
theorem sameTrail_noteRead (w : Walker R) (p : Nat) : SameTrail w (w.noteRead p) := by
  rw [noteRead]
  split <;> exact ⟨rfl, rfl⟩

/-- Noting a write is, too. -/
theorem sameTrail_noteWrite (w : Walker R) (p : Nat) : SameTrail w (w.noteWrite p) := by
  rw [noteWrite]
  split <;> exact ⟨rfl, rfl⟩

omit [Scalar R] in
/-- And so is a change of the probabilities that is made in some cases only. -/
theorem sameTrail_mapProbs (w : Walker R) (P : Prop) [Decidable P]
    (f : ProbabilityTable R → ProbabilityTable R) :
    SameTrail w (if P then w.mapProbs f else w) := by
  split <;> exact ⟨rfl, rfl⟩

/-- A run over a walker does what counting does: it fails where the counting fails, and else it
visits nothing and counts the touches. -/
def Counts (w : Walker R) (counted : Except Fault DenseHistogram) (run : Except Fault (Walker R)) :
    Prop :=
  match counted with
  | .error f => run = .error f
  | .ok h => ∃ w', run = .ok w' ∧ w'.visited = w.visited ∧ w'.estimate.touched = h

omit [Scalar R] in
/-- Noting touches counts them. -/
theorem counts_noteTouch (ps : List Nat) (w : Walker R) :
    w.Counts (ps.foldlM (fun h p => h.add? p 1) w.estimate.touched) (ps.foldlM noteTouch w) := by
  induction ps generalizing w with
  | nil => exact ⟨w, rfl, rfl, rfl⟩
  | cons p ps ih =>
    rw [List.foldlM_cons, List.foldlM_cons, noteTouch, Estimate.touch?]
    cases hadd : w.estimate.touched.add? p 1 with
    | error f => exact rfl
    | ok h => exact ih { w with
        touched := w.touched.insert p
        estimate := { w.estimate with touched := h } }

/-- Noting a call counts the partitions that it touches. Everything else that it notes is about
probabilities, and cannot fail. -/
theorem counts_noteCall (w : Walker R) (c : Call) (abort : Option R) :
    w.Counts (c.partitions.toList.foldlM (fun h p => h.add? p 1) w.estimate.touched)
      (w.noteCall c abort) := by
  have hfirst : ∀ w p, SameTrail w ((if c.queryType.isReadOnly then noteRead else noteWrite) w p :
      Walker R) := by
    intro w p
    split
    · exact sameTrail_noteRead w p
    · exact sameTrail_noteWrite w p
  have hnoted := SameTrail.foldl hfirst c.partitions.toList w
  have hcount := counts_noteTouch c.partitions.toList (c.partitions.toList.foldl
    (if c.queryType.isReadOnly then noteRead else noteWrite) w)
  rw [hnoted.touched] at hcount
  rw [noteCall]
  unfold Counts at hcount ⊢
  split at hcount
  case h_1 =>
    rw [hcount]
    rfl
  case h_2 h _ =>
    obtain ⟨w₁, hfold, hvisited, htouched⟩ := hcount
    rw [hfold]
    -- What is noted last changes probabilities only.
    have hlast := fun P [Decidable P] change => sameTrail_mapProbs w₁ P change
    cases abort with
    | none =>
      exact ⟨_, rfl, (hlast _ _).visited.trans (hvisited.trans hnoted.visited),
        (hlast _ _).touched.trans htouched⟩
    | some a =>
      exact ⟨_, rfl, (hlast _ _).visited.trans (hvisited.trans hnoted.visited),
        (hlast _ _).touched.trans htouched⟩

/-- Visiting a vertex that touches partitions of the graph only counts one more round. The bounds on
the number of rounds keep the counts in their range. -/
theorem visit_ok (hv : v < g.vertices.size) (hrange : g.InRange v)
    (hround : w.estimate.touched.Rounds g.partitions k []) (hk : k + 1 < wordLimit / 2)
    (hword : (k + 1) * g.partitions < wordLimit) :
    ∃ w', w.visit g v = .ok w' ∧ w'.visited = w.visited ++ [v]
      ∧ w'.estimate.touched.Rounds g.partitions (k + 1) [] := by
  have hx := Array.getElem?_eq_getElem hv
  rw [visit, hx]
  dsimp only
  split
  case h_1 c hkind =>
    -- A call touches each of its partitions once, which makes up a round.
    have hl := (Graph.inRange_query hx hkind).mp hrange
    have hnodup : c.partitions.toList.Nodup := c.partitions.ascending.imp Nat.ne_of_lt
    obtain ⟨h, hcount, hdone⟩ := (hround.next hnodup hl).count hk hword hnodup hl
    have hcounts := counts_noteCall { w with visited := w.visited ++ [v] } c
      g.vertices[v].probs.abort
    dsimp only at hcounts
    rw [hcount] at hcounts
    obtain ⟨w', hnote, hvisited, rfl⟩ := hcounts
    exact ⟨w', hnote, hvisited, hdone⟩
  case h_2 => exact ⟨_, rfl, rfl, hround.next List.nodup_nil nofun⟩

/-- Visiting a vertex that touches a partition outside the graph fails. The walk counts the
partitions that it touches, and there is no slot for this one. -/
theorem visit_error (hv : v < g.vertices.size) (hout : ¬ g.InRange v)
    (hsize : w.estimate.touched.slots.size = g.partitions) : ∃ f, w.visit g v = .error f := by
  have hx := Array.getElem?_eq_getElem hv
  rw [visit, hx]
  dsimp only
  split
  case h_1 c hkind =>
    rw [Graph.inRange_query hx hkind] at hout
    -- Counting fails at the first partition that the graph does not have.
    obtain ⟨p, hp, hlarge⟩ : ∃ p ∈ c.partitions.toList, g.partitions ≤ p := by
      simpa only [not_forall, Nat.not_lt, exists_prop] using hout
    obtain ⟨f, hcount⟩ := DenseHistogram.foldlM_add?_error (h := w.estimate.touched)
      ⟨p, hp, hsize ▸ hlarge⟩
    have hcounts := counts_noteCall { w with visited := w.visited ++ [v] } c
      g.vertices[v].probs.abort
    dsimp only at hcounts
    rw [hcount] at hcounts
    exact ⟨f, hcounts⟩
  case h_2 hother => exact absurd (Graph.inRange_of_not_query hx hother) hout

/-! ### A whole walk -/

/-- Going on from a vertex visits what is onward from there, up to the first vertex that touches a
partition outside the graph. -/
theorem follow_spec (h : j.graph.Initialized s) {fuel : Nat}
    (hround : w.estimate.touched.Rounds j.graph.partitions k [])
    (hk : k + fuel < wordLimit / 2) (hword : (k + fuel) * j.graph.partitions < wordLimit) :
    (∀ u ∈ j.onward fuel w.visited v, j.graph.InRange u)
        ∧ (∃ w', follow j fuel w v = .ok w' ∧ w'.visited = w.visited ++ j.onward fuel w.visited v)
      ∨ (∃ u ∈ j.onward fuel w.visited v, ¬ j.graph.InRange u)
        ∧ ∃ f, follow j fuel w v = .error f := by
  induction fuel generalizing w v k with
  | zero => exact .inl ⟨nofun, w, rfl, (List.append_nil _).symm⟩
  | succ fuel ih =>
    rw [Journey.onward, Journey.next?, follow]
    by_cases hend : j.graph.isTerminal v
    · rw [if_pos hend, if_pos hend]
      exact .inl ⟨nofun, w, rfl, (List.append_nil _).symm⟩
    rw [if_neg hend, if_neg hend]
    cases hchoice : j.candidates w.visited v with
    | mk es forced =>
    cases es with
    | nil => exact .inl ⟨nofun, w, rfl, (List.append_nil _).symm⟩
    | cons chosen others =>
      have hmem : chosen ∈ (j.candidates w.visited v).1 := by
        rw [hchoice]
        exact List.mem_cons_self
      have hv := (h.edges chosen (Journey.candidates_spec hmem).1).2
      dsimp only [List.head?_cons, Option.map_some]
      by_cases hrange : j.graph.InRange chosen.target
      · obtain ⟨w', hvisit, hvisited, hround'⟩ := visit_ok (w := { w with
          confidence := w.confidence * Journey.share chosen (chosen :: others)
          forced := if forced then w.forced ++ [chosen.target] else w.forced })
          hv hrange hround (by omega) (Nat.lt_of_le_of_lt (Nat.mul_le_mul_right _ (by omega)) hword)
        -- The visit has taken up one of the rounds that the walk has room for.
        have hleft : k + 1 + fuel = k + (fuel + 1) := by omega
        have hrest := ih (v := chosen.target) hround' (hleft ▸ hk) (hleft ▸ hword)
        rw [hvisit]
        rw [hvisited] at hrest
        rcases hrest with ⟨hall, w'', hfollow, hpath⟩ | ⟨hsome, hfail⟩
        · refine .inl ⟨List.forall_mem_cons.mpr ⟨hrange, hall⟩, w'', hfollow, ?_⟩
          rw [hpath, List.append_assoc]
          rfl
        · obtain ⟨u, hu, hout⟩ := hsome
          exact .inr ⟨⟨u, List.mem_cons_of_mem _ hu, hout⟩, hfail⟩
      · obtain ⟨f, hvisit⟩ := visit_error (w := { w with
          confidence := w.confidence * Journey.share chosen (chosen :: others)
          forced := if forced then w.forced ++ [chosen.target] else w.forced })
          hv hrange hround.size
        rw [hvisit]
        exact .inr ⟨⟨_, List.mem_cons_self, hrange⟩, f, rfl⟩

/-- A walker that is sent out. -/
def setOut (w : Walker R) (j : Journey R) (origin : Nat) : Walker R :=
  { w with
    isInitialized := true
    confidence := 1
    estimate := .start origin .initial j.graph.partitions }

/-- On an initialized graph, a walk visits its origin, follows edges, and is settled from START. -/
theorem traverse_eq (h : j.graph.Initialized s) (hw : w.isInitialized = false) :
    ∃ start, w.traverse j v = ((w.setOut j v).visit j.graph v).bind fun w =>
      (follow j j.graph.vertices.size w v).map fun w =>
        w.settle j.graph start j.minHitsForAbort := by
  obtain ⟨start, hstart, _⟩ := Option.map_eq_some_iff.mp h.start
  refine ⟨start, ?_⟩
  rw [traverse, hw, h.requireSentinels_eq]
  refine congrArg (Except.bind _) (funext fun w => congrArg (Except.bind _) (funext fun w => ?_))
  dsimp only [bind, Except.bind]
  rw [hstart]
  rfl

/-- A walk with a rested walker visits its itinerary, unless a vertex there touches a partition
outside the graph: then it fails. -/
theorem traverse_spec (h : j.graph.Initialized s) (hw : w.Rested)
    (hv : v < j.graph.vertices.size) (hsize : j.graph.vertices.size ≤ halfWordLimit)
    (hparts : j.graph.partitions < halfWordLimit) :
    (∀ u ∈ j.itinerary v, j.graph.InRange u)
        ∧ (∃ w', w.traverse j v = .ok w' ∧ w'.visited = j.itinerary v)
      ∨ (∃ u ∈ j.itinerary v, ¬ j.graph.InRange u) ∧ ∃ f, w.traverse j v = .error f := by
  have hwords : (1 + j.graph.vertices.size) * j.graph.partitions < wordLimit := by
    have hle := Nat.mul_le_mul (Nat.add_le_add_left hsize 1) (Nat.le_sub_one_of_lt hparts)
    exact Nat.lt_of_le_of_lt hle (by decide)
  have hcalls : 1 + j.graph.vertices.size < wordLimit / 2 :=
    Nat.lt_of_le_of_lt (Nat.add_le_add_left hsize 1) (by decide)
  have hempty : (w.setOut j v).estimate.touched.Rounds j.graph.partitions 0 [] :=
    DenseHistogram.rounds_empty _
  obtain ⟨start, htraverse⟩ := traverse_eq (v := v) h hw.idle
  rw [htraverse, Journey.itinerary]
  by_cases hrange : j.graph.InRange v
  · obtain ⟨w₁, hvisit, hvisited, hround⟩ := visit_ok hv hrange hempty (by omega)
      (Nat.lt_of_le_of_lt (Nat.mul_le_mul_right _ (by omega)) hwords)
    have hfollow := follow_spec (v := v) h hround hcalls hwords
    rw [show (w.setOut j v).visited = [] from hw.unvisited] at hvisited
    rw [hvisited] at hfollow
    rw [hvisit]
    rcases hfollow with ⟨hall, w₂, hrun, hpath⟩ | ⟨⟨u, hu, hout⟩, f, hrun⟩
    · refine .inl ⟨List.forall_mem_cons.mpr ⟨hrange, hall⟩,
        w₂.settle j.graph start j.minHitsForAbort, ?_, hpath⟩
      show (follow _ _ _ _).map _ = _
      rw [hrun]
      rfl
    · refine .inr ⟨⟨u, List.mem_cons_of_mem _ hu, hout⟩, f, ?_⟩
      show (follow _ _ _ _).map _ = _
      rw [hrun]
      rfl
  -- The walk fails at its very first vertex.
  · obtain ⟨f, hvisit⟩ := visit_error hv hrange hempty.size
    rw [hvisit]
    exact .inr ⟨⟨v, List.mem_cons_self, hrange⟩, f, rfl⟩

/-- A walk fails exactly if a vertex on its itinerary touches a partition outside the graph. -/
theorem traverse_error_iff (h : j.graph.Initialized s) (hw : w.Rested)
    (hv : v < j.graph.vertices.size) (hsize : j.graph.vertices.size ≤ halfWordLimit)
    (hparts : j.graph.partitions < halfWordLimit) :
    (∃ f, w.traverse j v = .error f) ↔ ∃ u ∈ j.itinerary v, ¬ j.graph.InRange u := by
  rcases traverse_spec h hw hv hsize hparts with ⟨hall, w', hrun, _⟩ | ⟨hsome, hfail⟩
  · refine ⟨fun ⟨f, hfail⟩ => ?_, fun ⟨u, hu, hout⟩ => absurd (hall u hu) hout⟩
    cases hrun.symm.trans hfail
  · exact ⟨fun _ => hsome, fun _ => hfail⟩

/-- On a graph without calls outside its partitions, walks do not fail. -/
theorem traverse_ok (h : j.graph.Initialized s) (hw : w.Rested)
    (hv : v < j.graph.vertices.size) (hsize : j.graph.vertices.size ≤ halfWordLimit)
    (hparts : j.graph.partitions < halfWordLimit) (hrange : ∀ u, j.graph.InRange u) :
    ∃ w', w.traverse j v = .ok w' := by
  rcases traverse_spec h hw hv hsize hparts with ⟨_, w', hrun, _⟩ | ⟨⟨u, _, hout⟩, _⟩
  · exact ⟨w', hrun⟩
  · exact absurd (hrange u) hout

end Walker

end TxnPath
