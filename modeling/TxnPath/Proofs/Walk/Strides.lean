import Mathlib.Algebra.BigOperators.Group.List.Basic
import Mathlib.Algebra.Order.BigOperators.Group.List
import Mathlib.Algebra.Order.Field.Basic
import Mathlib.Algebra.Order.Field.Rat
import Mathlib.Logic.Relation
import TxnPath.Proofs.Walk.Path

/-!
# `TxnPath.Proofs.Walk.Strides`: a walk, edge by edge

`Journey.Strides` is one turn of a walk: it takes the best edge from where it stands and visits the
vertex that the edge leads to. A walk is a run of such turns (`Journey.follow_strides`), so that
what every turn keeps, a walk keeps. A turn makes the path longer by one vertex and multiplies the
confidence by the share of the edge.

In exact arithmetic, and where no edge has a negative probability, the best edge has a positive
share and no share is more than the whole (`Journey.share_mem`). So the confidence stays positive and does
not increase (`Strides.confidence`).
-/

set_option autoImplicit false

namespace TxnPath

variable {R : Type} [Scalar R]

namespace Walker

variable {w w' : Walker R} {g : Graph R} {v : Nat}

/-! ### What a visit leaves alone -/

/-- Noting a call changes the estimate and the histogram of touched partitions, and leaves the
confidence, the vertex and the turns that were forced as they are. -/
theorem noteCall_frame {c : Call} {abort : Option R} (h : w.noteCall c abort = .ok w') :
    w'.confidence = w.confidence ∧ w'.estimate.vertex = w.estimate.vertex
      ∧ w'.forced = w.forced := by
  let frame : Walker R → R × Option Nat × List Nat := fun w =>
    (w.confidence, w.estimate.vertex, w.forced)
  have hnote : ∀ (w : Walker R) p,
      frame ((if c.queryType.isReadOnly then noteRead else noteWrite) w p) = frame w := by
    intro w p
    split
    · rw [noteRead]
      split <;> rfl
    · rw [noteWrite]
      split <;> rfl
  have hnoted : ∀ (ps : List Nat) (w : Walker R), frame (ps.foldl
      (if c.queryType.isReadOnly then noteRead else noteWrite) w) = frame w := by
    intro ps
    induction ps with
    | nil => exact fun _ => rfl
    | cons p ps ih => exact fun w => (ih _).trans (hnote w p)
  have hlast : ∀ (w : Walker R) (P : Prop) [Decidable P]
      (change : ProbabilityTable R → ProbabilityTable R),
      frame (if P then w.mapProbs change else w) = frame w := by
    intro w P _ change
    split <;> rfl
  obtain ⟨w₁, htouch, h⟩ := Outcome.bind_ok h
  -- Counting the touches is the only part that can fail, and it does not look at the frame.
  have htouched := Outcome.foldlM_rel (fun w w' : Walker R => frame w' = frame w)
    (fun _ => rfl) (fun h h' => h'.trans h)
    (fun hrun => by
      obtain ⟨_, he, rfl⟩ := Outcome.map_ok hrun
      obtain ⟨_, _, rfl⟩ := Outcome.map_ok he
      rfl) htouch
  have hframe : frame w' = frame w := by
    rw [← hnoted c.partitions.toList w, ← htouched]
    cases h
    cases abort <;> exact hlast w₁ _ _
  obtain ⟨hconfidence, hrest⟩ := Prod.mk.inj hframe
  exact ⟨hconfidence, Prod.mk.inj hrest⟩

/-- A visit makes the path longer by the vertex, and leaves the confidence, the origin of the
estimate and what was reached for want of better as they are. -/
theorem visit_frame (h : w.visit g v = .ok w') :
    w'.visited = w.visited ++ [v] ∧ w'.confidence = w.confidence
      ∧ w'.estimate.vertex = w.estimate.vertex ∧ w'.forced = w.forced := by
  rw [visit] at h
  split at h
  · cases h
  · split at h
    · next x _ _ c _ =>
      -- Noting a call counts and fills in, and moves nowhere.
      have hcounts := counts_noteCall { w with visited := w.visited ++ [v] } c x.probs.abort
      unfold Counts at hcounts
      split at hcounts
      · cases h.symm.trans hcounts
      · obtain ⟨w₁, hrun, hvisited, _⟩ := hcounts
        obtain rfl := Except.ok.inj (h.symm.trans hrun)
        obtain ⟨hconfidence, hvertex, hforced⟩ := noteCall_frame h
        exact ⟨hvisited, hconfidence, hvertex, hforced⟩
    · cases h
      exact ⟨rfl, rfl, rfl, rfl⟩

/-- A walker that is about to follow the first of several edges. -/
def choose (w : Walker R) (chosen : Edge R) (others : List (Edge R)) (forced : Bool) : Walker R :=
  { w with
    confidence := w.confidence * Journey.share chosen (chosen :: others)
    forced := if forced then w.forced ++ [chosen.target] else w.forced }

end Walker

/-! ### Turns -/

namespace Journey

variable {j : Journey R} {s : Sentinels} {w w' : Walker R} {v : Nat}

/-- The walk takes the best edge from the vertex that it visited last, where its path does not
end. -/
def Strides (j : Journey R) (w w' : Walker R) : Prop :=
  ∃ v chosen others forced, w.visited.getLast? = some v ∧ j.graph.isTerminal v = false
    ∧ j.candidates w.visited v = (chosen :: others, forced)
    ∧ (w.choose chosen others forced).visit j.graph chosen.target = .ok w'

/-- Going on from a vertex is to take turns. The fuel bounds how many, and does not show in the
turns: with this, what one turn preserves holds of a whole walk. -/
theorem follow_strides {fuel : Nat} (hlast : w.visited.getLast? = some v)
    (h : Walker.follow j fuel w v = .ok w') : Relation.ReflTransGen j.Strides w w' := by
  induction fuel generalizing w v with
  | zero =>
    cases h
    exact .refl
  | succ fuel ih =>
    rw [Walker.follow] at h
    split at h
    · cases h
      exact .refl
    · next hinner =>
      split at h
      · cases h
        exact .refl
      -- The walk goes on: this is one turn, and the rest of the way is shorter.
      · next chosen others forced hchoice =>
        dsimp only at h
        split at h
        · cases h
        · next w₁ hvisit =>
          have hvisited := (Walker.visit_frame hvisit).1
          have hturn : j.Strides w w₁ :=
            ⟨v, chosen, others, forced, hlast, Bool.eq_false_iff.mpr hinner, hchoice, hvisit⟩
          exact .head hturn (ih (hvisited ▸ List.getLast?_concat) h)

/-- A turn makes the path of the walk longer. -/
theorem Strides.walked (h : j.Strides w w') (hinit : j.graph.Initialized s)
    (hwalked : j.Walked w.visited) : j.Walked w'.visited := by
  obtain ⟨v, chosen, others, forced, hlast, hinner, hchoice, hvisit⟩ := h
  have hnext : j.next? w.visited v = some chosen.target := by
    rw [next?, hinner, hchoice]
    rfl
  rw [(Walker.visit_frame hvisit).1]
  exact hwalked.next hinit hlast hnext

/-- Turns keep the path of a walk a way through the graph that visits no vertex twice. -/
theorem walked_of_strides (h : Relation.ReflTransGen j.Strides w w')
    (hinit : j.graph.Initialized s) (hwalked : j.Walked w.visited) : j.Walked w'.visited := by
  induction h with
  | refl => exact hwalked
  | tail _ hturn ih => exact hturn.walked hinit ih

end Journey

/-! ### A walk that gives a result -/

namespace Walker

variable {j : Journey R} {s : Sentinels} {w w' : Walker R} {v : Nat}

/-- Whoever goes on without failing visits what is onward. Where a walk goes depends on the vertices
it has visited and not on what it noted there. -/
theorem follow_visited {fuel : Nat} (h : follow j fuel w v = .ok w') :
    w'.visited = w.visited ++ j.onward fuel w.visited v := by
  induction fuel generalizing w v with
  | zero =>
    cases h
    exact (List.append_nil _).symm
  | succ fuel ih =>
    rw [follow] at h
    rw [Journey.onward, Journey.next?]
    split at h
    case isTrue hend =>
      cases h
      rw [if_pos hend, List.append_nil]
    case isFalse hinner =>
      rw [if_neg hinner]
      split at h
      case h_1 hchoice =>
        cases h
        rw [hchoice]
        exact (List.append_nil _).symm
      case h_2 hchoice =>
        dsimp only at h
        split at h
        · cases h
        -- The vertex visited is the one that the itinerary goes on to.
        case h_2 hvisit =>
          have hvisited := (visit_frame hvisit).1
          dsimp only at hvisited
          rw [hchoice, ih h, hvisited, List.append_assoc]
          rfl

/-- A walk that gives a result has visited its itinerary. -/
theorem traverse_visited (hinit : j.graph.Initialized s) (hw : w.Rested)
    (h : w.traverse j v = .ok w') : w'.visited = j.itinerary v := by
  obtain ⟨start, htraverse⟩ := traverse_eq (v := v) hinit hw.idle
  obtain ⟨first, hvisit, hfollow⟩ := Outcome.bind_ok (htraverse.symm.trans h)
  obtain ⟨last, hlast, rfl⟩ := Outcome.map_ok hfollow
  have hfirst : first.visited = [v] := by
    rw [(visit_frame hvisit).1, show (w.setOut j v).visited = [] from hw.unvisited]
    rfl
  have hvisited := follow_visited hlast
  rw [hfirst] at hvisited
  exact hvisited

/-- Going on from a vertex does not change where the estimate is made from. The origin was put there
when the walk set out, and a visit leaves it as it is. -/
theorem follow_vertex {fuel : Nat} (h : follow j fuel w v = .ok w') :
    w'.estimate.vertex = w.estimate.vertex := by
  induction fuel generalizing w v with
  | zero =>
    cases h
    rfl
  | succ fuel ih =>
    rw [follow] at h
    split at h
    · cases h
      rfl
    · split at h
      · cases h
        rfl
      · dsimp only at h
        split at h
        · cases h
        -- One turn leaves it, and so does the rest of the way.
        case h_2 hvisit => exact (ih h).trans (visit_frame hvisit).2.2.1

/-- A walk makes an estimate from its origin. -/
theorem traverse_vertex (h : w.traverse j v = .ok w') : w'.estimate.vertex = some v := by
  rw [traverse] at h
  split at h
  · cases h
  · obtain ⟨first, hvisit, h⟩ := Outcome.bind_ok h
    obtain ⟨last, hlast, h⟩ := Outcome.bind_ok h
    obtain ⟨s, _, h⟩ := Outcome.bind_ok h
    split at h
    · cases h
    · cases h
      exact (follow_vertex hlast).trans (visit_frame hvisit).2.2.1

end Walker

/-! ### Exact confidence -/

namespace Journey

variable {j : Journey Rat} {w w' : Walker Rat} {chosen : Edge Rat} {others : List (Edge Rat)}
  {forced : Bool} {visited : List Nat} {v : Nat}

/-- The first edge to take is the most probable one. Candidates are sorted by descending
probability. -/
theorem probability_le (h : j.candidates visited v = (chosen :: others, forced)) :
    ∀ e ∈ others, e.probability ≤ chosen.probability := by
  have hsorted : ∀ es : List (Edge Rat × Nat),
      (Scalar.sortDescending (fun e : Edge Rat × Nat => e.1.probability) es).Pairwise
        fun a b => b.1.probability ≤ a.1.probability := by
    intro es
    refine (pairwise_stableSort (fun a b => ?_) (fun a b c hab hbc => ?_) es).imp fun h => ?_
    · simpa using le_total b.1.probability a.1.probability
    · simp only [Bool.not_eq_true', decide_eq_false_iff_not, not_lt] at hab hbc ⊢
      exact hbc.trans hab
    · simpa using h
  rw [candidates_eq] at h
  have hpairwise : (chosen :: others).Pairwise fun a b => b.probability ≤ a.probability :=
    (Prod.mk.inj h).1 ▸ List.pairwise_map.mpr (hsorted _)
  exact (List.pairwise_cons.mp hpairwise).1

/-- Shares of rational numbers, with the arithmetic of ordered fields. -/
theorem share_eq (chosen : Edge Rat) (among : List (Edge Rat)) :
    share chosen among =
      if 0 < (among.map Edge.probability).sum
      then chosen.probability / (among.map Edge.probability).sum else 1 / (among.length : Rat) := by
  have hsum : Scalar.sum (among.map Edge.probability) = (among.map Edge.probability).sum :=
    List.sum_eq_foldl.symm
  rw [share, hsum]
  rfl

/-- The share of the most probable edge is positive, and at most the whole. If no edge has a
positive probability the share is an equal part, which is positive too. -/
theorem share_mem (hbest : ∀ e ∈ others, e.probability ≤ chosen.probability)
    (hnonneg : ∀ e ∈ chosen :: others, 0 ≤ e.probability) :
    0 < share chosen (chosen :: others) ∧ share chosen (chosen :: others) ≤ 1 := by
  obtain ⟨hchosen, hothers⟩ := List.forall_mem_cons.mp hnonneg
  have hrest : 0 ≤ (others.map Edge.probability).sum :=
    List.sum_nonneg (List.forall_mem_map.mpr hothers)
  rw [share_eq, List.map_cons, List.sum_cons]
  split
  case isTrue hpositive =>
    refine ⟨div_pos (hchosen.lt_of_ne fun hzero => ?_) hpositive, ?_⟩
    · -- If the best edge had no probability, none of them would.
      have hnone : (others.map Edge.probability).sum = 0 :=
        List.sum_eq_zero (List.forall_mem_map.mpr fun e he =>
          le_antisymm (hzero ▸ hbest e he) (hothers e he))
      rw [← hzero, hnone, add_zero] at hpositive
      exact absurd hpositive (lt_irrefl 0)
    · exact (div_le_one hpositive).mpr (le_add_of_nonneg_right hrest)
  case isFalse =>
    -- No probability to share, so each edge gets an equal part.
    have hlength : (1 : Rat) ≤ ((chosen :: others).length : Rat) := by
      exact_mod_cast Nat.succ_le_succ (Nat.zero_le others.length)
    exact ⟨one_div_pos.mpr (zero_lt_one.trans_le hlength),
      (div_le_one (zero_lt_one.trans_le hlength)).mpr hlength⟩

/-- A turn leaves the confidence positive and does not increase it. -/
theorem Strides.confidence (h : j.Strides w w') (hnonneg : ∀ e ∈ j.graph.edges, 0 ≤ e.probability)
    (hpositive : 0 < w.confidence) : 0 < w'.confidence ∧ w'.confidence ≤ w.confidence := by
  obtain ⟨v, chosen, others, forced, _, _, hchoice, hvisit⟩ := h
  have hedges : ∀ e ∈ chosen :: others, 0 ≤ e.probability := fun e he =>
    hnonneg e (candidates_spec (by rw [hchoice]; exact he)).1
  obtain ⟨hshare, hwhole⟩ := share_mem (probability_le hchoice) hedges
  have hnext : w'.confidence = w.confidence * share chosen (chosen :: others) :=
    (Walker.visit_frame hvisit).2.1
  rw [hnext]
  exact ⟨mul_pos hpositive hshare, mul_le_of_le_one_right hpositive.le hwhole⟩

/-- From any point of a walk on, the confidence stays positive and does not increase. -/
theorem confidence_of_strides (h : Relation.ReflTransGen j.Strides w w')
    (hnonneg : ∀ e ∈ j.graph.edges, 0 ≤ e.probability) (hpositive : 0 < w.confidence) :
    0 < w'.confidence ∧ w'.confidence ≤ w.confidence := by
  induction h with
  | refl => exact ⟨hpositive, le_rfl⟩
  | tail _ hturn ih =>
    obtain ⟨hlater, hless⟩ := hturn.confidence hnonneg ih.1
    exact ⟨hlater, hless.trans ih.2⟩

end Journey

end TxnPath
