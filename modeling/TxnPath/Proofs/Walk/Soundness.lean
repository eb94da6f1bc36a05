import Mathlib
import TxnPath.Proofs.Walk.Completeness

/-!
# `TxnPath.Proofs.Walk.Soundness`: what a walk comes to

`Walker.traverse_sound` is what can be relied on about any walk over a graph without calls outside
its partitions, whatever the graph looks like and wherever the walk sets out. It gives a result. Its
path starts at its origin, follows edges, visits no vertex twice and so no more than there are, and
ends at COMMIT, at ABORT, or where there is no edge to take. Its estimate says everything. In exact
arithmetic the confidence stays positive, is never more than one, and does not increase on the way.

That a walk has room for as many steps as there are vertices is no bound on it: however many turns
are taken (`Journey.Reaches`), the path is no longer than that.
-/

set_option autoImplicit false

namespace TxnPath

variable {R : Type}

namespace Walker

/-- A walker that carries nothing over from an earlier walk. -/
structure Blank (w : Walker R) : Prop extends w.Rested where
  unmet : ∀ p, ¬ w.Met p

variable [Scalar R]

/-- A new walker predicts nothing yet. -/
theorem blank_new : (new : Walker R).Blank where
  toRested := rested_new
  unmet p h := by simp [Met, new] at h

/-- A walker that has finished predicts nothing any more. -/
theorem blank_finish (w : Walker R) : w.finish.Blank where
  toRested := w.rested_finish
  unmet p h := by simp [Met, finish] at h

end Walker

namespace Journey

variable [Scalar R] {j : Journey R} {s : Sentinels} {w w' : Walker R} {origin : Nat}

/-- A blank walker can be sent out from a vertex of a graph that touches its own partitions only.
The bounds are those of the numbers that vertices and partitions get. -/
structure Departs (j : Journey R) (s : Sentinels) (w : Walker R) (origin : Nat) : Prop where
  walker : w.Blank
  graph : j.graph.Initialized s
  origin : origin < j.graph.vertices.size
  inRange : ∀ v, j.graph.InRange v
  vertices : j.graph.vertices.size ≤ halfWordLimit
  partitions : j.graph.partitions < halfWordLimit

/-- A walker that was sent out has come so far after some turns. -/
def Reaches (j : Journey R) (w : Walker R) (origin : Nat) (w' : Walker R) : Prop :=
  ∃ first, (w.setOut j origin).visit j.graph origin = .ok first
    ∧ Relation.ReflTransGen j.Strides first w'

/-- An estimate that is begun has nothing to say about what was not come across. -/
theorem Departs.noted (h : j.Departs s w origin) :
    (w.setOut j origin).Noted j.graph.partitions where
  vertex := rfl
  size field := by cases field <;> exact Array.size_replicate
  done p _ hmet := absurd hmet (h.walker.unmet p)

/-- The first visit is to the origin. -/
theorem Departs.first (h : j.Departs s w origin) {first : Walker R}
    (hvisit : (w.setOut j origin).visit j.graph origin = .ok first) :
    first.visited = [origin] ∧ first.confidence = 1 := by
  obtain ⟨hvisited, hconfidence, _⟩ := Walker.visit_frame hvisit
  rw [show (w.setOut j origin).visited = [] from h.walker.unvisited] at hvisited
  exact ⟨hvisited, hconfidence⟩

/-- Wherever a walk comes, its path is one over the graph. -/
theorem Departs.walked (h : j.Departs s w origin) (hreaches : j.Reaches w origin w') :
    j.Walked w'.visited := by
  obtain ⟨first, hvisit, hturns⟩ := hreaches
  refine walked_of_strides hturns h.graph ?_
  rw [(h.first hvisit).1]
  exact walked_singleton h.origin

/-- However many turns are taken, the partitions touched have entries. -/
theorem Departs.reaches_noted (h : j.Departs s w origin) (hreaches : j.Reaches w origin w') :
    w'.Noted j.graph.partitions := by
  obtain ⟨first, hvisit, hturns⟩ := hreaches
  exact (h.noted.visit hvisit).strides hturns

/-- A walk takes turns along its itinerary, and is settled at the end. -/
theorem Departs.traverse (h : j.Departs s w origin) :
    ∃ last start, j.Reaches w origin last ∧ last.visited = j.itinerary origin
      ∧ w.traverse j origin = .ok (last.settle j.graph start j.minHitsForAbort) := by
  obtain ⟨start, hsplit⟩ := Walker.traverse_eq (v := origin) h.graph h.walker.idle
  rcases Walker.traverse_spec h.graph h.walker.toRested h.origin h.vertices h.partitions with
    ⟨_, w', hrun, hvisited⟩ | ⟨⟨u, _, hout⟩, _⟩
  · obtain ⟨first, hvisit, hfollow⟩ := Outcome.bind_ok (hsplit.symm.trans hrun)
    obtain ⟨last, hlast, rfl⟩ := Outcome.map_ok hfollow
    have hturns := follow_strides ((h.first hvisit).1 ▸ rfl) hlast
    exact ⟨last, start, ⟨first, hvisit, hturns⟩, hvisited, hrun⟩
  · exact absurd (h.inRange u) hout

end Journey

namespace Walker

/-- What a walk comes to. However many turns are taken, no more vertices are visited than there are.
The walk gives a result, whose path begins at the origin, follows edges without coming to any vertex
twice, and ends at COMMIT, at ABORT or where no edge can be taken; no entry of its estimate is left
out. The second part is about exact arithmetic on graphs without negative probabilities: confidence
is always positive, and never increases. -/
theorem traverse_sound :
    (∀ {R : Type} [Scalar R] {j : Journey R} {s : Sentinels} {w : Walker R} {origin : Nat},
      j.Departs s w origin →
        (∀ w₁, j.Reaches w origin w₁ → w₁.visited.length ≤ j.graph.vertices.size)
          ∧ ∃ last w', j.Reaches w origin last ∧ w.traverse j origin = .ok w'
            ∧ w'.visited = last.visited ∧ w'.confidence = last.confidence
            ∧ w'.visited.head? = some origin ∧ w'.visited.IsChain j.graph.Joins
            ∧ w'.visited.Nodup
            ∧ (∃ u, w'.visited.getLast? = some u
              ∧ (u = s.commit ∨ u = s.abort ∨ (j.candidates w'.visited u).1 = []))
            ∧ w'.estimate.isValid = true ∧ w'.estimate.probs.Known j.graph.partitions
            ∧ w'.estimate.confidence = some w'.confidence)
      ∧ ∀ {j : Journey Rat} {s : Sentinels} {w : Walker Rat} {origin : Nat},
        j.Departs s w origin → (∀ e ∈ j.graph.edges, 0 ≤ e.probability) →
          ∀ w₁ w₂, j.Reaches w origin w₁ → Relation.ReflTransGen j.Strides w₁ w₂ →
            0 < w₂.confidence ∧ w₂.confidence ≤ w₁.confidence ∧ w₁.confidence ≤ 1 := by
  refine ⟨fun {R} _ {j s w origin} h => ⟨fun w₁ hreaches => (h.walked hreaches).length_le, ?_⟩,
    fun {j s w origin} h hnonneg w₁ w₂ hreaches hturns => ?_⟩
  · obtain ⟨last, start, hreaches, hvisited, hrun⟩ := h.traverse
    obtain ⟨hwalked, u, hu, hend⟩ := Journey.walked_itinerary h.graph h.origin
    obtain ⟨hknown, hvalid⟩ := (h.reaches_noted hreaches).settle start j.minHitsForAbort
    refine ⟨last, _, hreaches, hrun, rfl, rfl, ?_⟩
    rw [show (last.settle j.graph start j.minHitsForAbort).visited = j.itinerary origin
      from hvisited]
    exact ⟨rfl, hwalked.joined, hwalked.nodup,
      ⟨u, hu, (Journey.next?_eq_none h.graph).mp hend⟩, hvalid, hknown, rfl⟩
  -- A walk sets out with full confidence, and each turn multiplies it by a share.
  · obtain ⟨first, hvisit, hearlier⟩ := hreaches
    have hone : first.confidence = 1 := (h.first hvisit).2
    obtain ⟨hpositive, hless⟩ := Journey.confidence_of_strides hearlier hnonneg
      (hone ▸ zero_lt_one)
    obtain ⟨hpositive', hless'⟩ := Journey.confidence_of_strides hturns hnonneg hpositive
    exact ⟨hpositive', hless', hone ▸ hless⟩

/-! ### A walk round a circle -/

/-- A graph in which the only way on from START leads round two calls for ever. -/
def circle : Graph Rat :=
  let g := (((Graph.fresh 0 0 1).ensureCall ⟨0, 0, .singleton 0, .select⟩).1.ensureCall
    ⟨0, 1, .singleton 0, .update⟩).1
  (((g.link 0 3).1.link 3 4).1.link 4 3).1.foldWindow.weighEdges

/-- The graph of the example is initialized. -/
theorem initialized_circle : circle.Initialized ⟨0, 1, 2⟩ := by
  refine Graph.Initialized.weighEdges (.foldWindow (.link (.link (.link ?_ ?_ ?_) ?_ ?_) ?_ ?_))
  · exact ((Graph.initialized_fresh 0 0 1).ensureCall _).ensureCall _
  all_goals decide +kernel

/-- A walk over it that takes any edge for want of better. -/
def roundabout : Journey Rat where
  graph := circle
  procedure := ⟨0, "circle", [], [⟨0, "step", .select, [], []⟩], false, true, none⟩
  mappings := ∅
  router := ⟨1, fun _ _ => .ok 0, fun _ _ _ _ => .ok (.singleton 0)⟩
  args := []
  policy := .firstFound
  force := true
  minHitsForAbort := 1

/-- A new walker can set out there. -/
theorem departs_roundabout : roundabout.Departs ⟨0, 1, 2⟩ .new 0 where
  walker := blank_new
  graph := initialized_circle
  origin := by decide +kernel
  inRange := by
    have hcalls : ∀ x ∈ circle.vertices, ∀ c ∈ x.kind.call?, ∀ p ∈ c.partitions.toList,
        p < circle.partitions := by
      decide +kernel
    intro v c hc p hp
    obtain ⟨x, hx, hkind⟩ := Option.map_eq_some_iff.mp hc
    exact hcalls x (Array.mem_of_getElem? hx) c (hkind ▸ rfl) p hp
  vertices := by decide +kernel
  partitions := by decide +kernel

/-- The walk visits both calls and ends at the second one. -/
theorem traverse_sound_roundabout :
    ∃ last w', roundabout.Reaches .new 0 last ∧ (new : Walker Rat).traverse roundabout 0 = .ok w'
      ∧ w'.visited = [0, 3, 4] ∧ w'.visited.IsChain circle.Joins
      ∧ (roundabout.candidates [0, 3, 4] 4).1 = [] ∧ w'.estimate.isValid = true
      ∧ 0 < w'.confidence ∧ w'.confidence ≤ 1 := by
  have h := departs_roundabout
  have hnonneg : ∀ e ∈ circle.edges, 0 ≤ e.probability := by decide +kernel
  obtain ⟨-, last, w', hreaches, hrun, hvisited, hconfidence, _, hjoined, _, ⟨u, hu, hend⟩, hvalid,
    _⟩ := traverse_sound.1 h
  obtain ⟨hpositive, _, hone⟩ := traverse_sound.2 h hnonneg last last hreaches .refl
  -- The path is evaluated; that it is sound comes from the theorem.
  have hpath : (((new : Walker Rat).traverse roundabout 0).map Walker.visited) = .ok [0, 3, 4] := by
    decide +kernel
  rw [hrun] at hpath
  have hpath : w'.visited = [0, 3, 4] := Except.ok.inj hpath
  rw [hpath] at hu hend
  obtain rfl : 4 = u := Option.some.inj hu
  refine ⟨last, w', hreaches, hrun, hpath, hjoined, ?_, hvalid, hconfidence ▸ hpositive,
    hconfidence ▸ hone⟩
  exact (hend.resolve_left (by decide)).resolve_left (by decide)

end Walker

end TxnPath
