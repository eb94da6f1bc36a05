import Mathlib.Order.Bounds.Basic
import TxnPath.Archive.Load
import TxnPath.Proofs.Scalar
import TxnPath.Proofs.Walk.Trail

/-!
# `TxnPath.Proofs.Walk.Foretold`: the estimate of a walk, read off its visits

The estimate of a walk is filled in visit by visit and completed at the end. `Graph.Foretold` says
what every entry comes to in terms of the visits: of a partition that was touched, the confidence when
this happened first; of any other one, what START says; of the transaction as a whole, the visit by
which a second partition was touched, and the greatest abort probability among the calls.
`Walker.traverse_foretold` says this of every walk that gives a result.

A transaction that touches one partition stays there if it is done at all others. The least of these
probabilities is taken, and the search for it begins at one. In a graph whose counters do not add up,
START may be done at a partition with more than that, and then one is what is predicted although no
partition has it (`overcounted_single`).

Most entries are what they are in any arithmetic. A least or a greatest number is one of those that it
was chosen from in any arithmetic as well, and least or greatest among them if they are ranked
(`Scalar.Ranks`). Rationals always are, which `Graph.Foretold.isLeast_single` and
`Graph.Foretold.isGreatest_abort` say.
-/

set_option autoImplicit false

namespace TxnPath

/-! ### Greatest numbers -/

namespace Graph

variable {R : Type} [Scalar R] {xs : List R} {a x : R}

/-- The last number is compared with the greatest of those before. -/
theorem greatest_concat (xs : List R) (x : R) :
    greatest (xs ++ [x]) = some ((greatest xs).elim x fun y => Scalar.larger y x) := by
  rw [greatest, List.foldl_append, ← greatest]
  cases hxs : greatest xs with
  | none => rfl
  | some y => rfl

/-- There is a greatest number unless there are none, and it is one of them. That it is greatest is
another matter, since numbers need not be ordered for it to be found. -/
theorem greatest_cases (xs : List R) :
    xs = [] ∧ greatest xs = none ∨ ∃ a ∈ xs, greatest xs = some a := by
  induction xs using List.reverseRecOn with
  | nil => exact .inl ⟨rfl, rfl⟩
  | append_singleton xs x ih =>
    refine .inr ⟨_, ?_, greatest_concat xs x⟩
    rcases ih with ⟨_, hnone⟩ | ⟨a, ha, hgreatest⟩
    · rw [hnone]
      exact List.mem_append_right _ List.mem_cons_self
    · rw [hgreatest, Option.elim_some]
      rcases Scalar.larger_eq_or a x with heq | heq
      · rw [heq]
        exact List.mem_append_left _ ha
      · rw [heq]
        exact List.mem_append_right _ List.mem_cons_self

/-- Among ranked numbers nothing is greater than it. The induction is on the last number, as that is
compared last. -/
theorem isGreatest_greatest (hranks : Scalar.Ranks {x | x ∈ xs}) (ha : greatest xs = some a) :
    IsGreatest {x | x ∈ xs} a := by
  induction xs using List.reverseRecOn generalizing a with
  | nil => cases ha
  | append_singleton xs x ih =>
    have hsub : {y | y ∈ xs} ⊆ {y | y ∈ xs ++ [x]} := fun y hy => List.mem_append_left _ hy
    have hx : x ∈ {y | y ∈ xs ++ [x]} := List.mem_append_right _ List.mem_cons_self
    rw [greatest_concat] at ha
    rcases greatest_cases xs with ⟨rfl, hnone⟩ | ⟨b, hb, hgreatest⟩
    · rw [hnone] at ha
      obtain rfl := Option.some.inj ha
      refine ⟨hx, fun y hy => ?_⟩
      rw [List.mem_singleton.mp hy]
      exact hranks.refl hx
    -- The greatest so far is compared with the last one, and the greater of the two is kept.
    · rw [hgreatest, Option.elim_some] at ha
      obtain rfl := Option.some.inj ha
      obtain ⟨hbefore, hlast⟩ := hranks.le_larger (hsub hb) hx
      have hmem : Scalar.larger b x ∈ {y | y ∈ xs ++ [x]} := by
        rcases Scalar.larger_eq_or b x with heq | heq
        · rw [heq]
          exact hsub hb
        · rw [heq]
          exact hx
      refine ⟨hmem, fun y hy => ?_⟩
      rcases List.mem_append.mp hy with hold | hnew
      · exact hranks.trans y hy b (hsub hb) _ hmem ((ih (hranks.mono hsub) hgreatest).2 hold) hbefore
      · exact List.mem_singleton.mp hnew ▸ hlast

end Graph

/-! ### The visit by which there are more partitions than one -/

namespace Graph

variable {R : Type} {g : Graph R} {visits : List (Stop R)} {q : Nat}

/-- A partition has a first touch if it was touched. -/
theorem firstTouch?_eq_none_iff : g.firstTouch? visits q = none ↔ q ∉ g.touchedBy visits := by
  rw [firstTouch?, List.find?_eq_none, mem_touchedBy]
  push Not
  rfl

/-- The visit is the one by which a second partition is touched. -/
def Spreads (g : Graph R) (visits : List (Stop R)) (x : Stop R) : Prop :=
  ∃ before after, visits = before ++ x :: after ∧ (g.touchedBy before).card ≤ 1
    ∧ 1 < (g.touchedBy (before ++ [x])).card

/-- If several partitions were touched, there is a visit by which a second one was. -/
theorem exists_spreads (h : 1 < (g.touchedBy visits).card) : ∃ x, g.Spreads visits x := by
  induction visits using List.reverseRecOn with
  | nil => simp [touchedBy] at h
  | append_singleton visits x ih =>
    by_cases hbefore : 1 < (g.touchedBy visits).card
    · obtain ⟨y, before, after, rfl, hone, hmany⟩ := ih hbefore
      exact ⟨y, before, after ++ [x], by simp, hone, hmany⟩
    · exact ⟨x, visits, [], rfl, not_lt.mp hbefore, h⟩

end Graph

/-! ### What is foretold -/

section Foretold

variable {R : Type} [Scalar R]

/-- What START says about being done at the partitions that were not touched, nothing where it says
nothing; and one, which the search for the least of them begins at. -/
def Graph.doneElsewhere (g : Graph R) (start : Vertex R) (visits : List (Stop R)) : Set R :=
  insert 1 ((fun q => (start.probs.get? .done q).getD 0) ''
    {q | q < g.partitions ∧ q ∉ g.touchedBy visits})

/-- The probabilities that a walk with these visits predicts, if its last confidence is `last`.
Every entry is told in terms of the visits alone, so that it does not matter in which registers a
walk keeps what it has seen. -/
structure Graph.Foretold (g : Graph R) (start : Vertex R) (minHits : Nat)
    (visits : List (Stop R)) (last : R) (t : ProbabilityTable R) : Prop where
  /-- The transaction is done at a partition if it does not get to the first call that touches it. -/
  done : ∀ q < g.partitions, ∀ x, g.firstTouch? visits q = some x →
    t.get? .done q = some (1 - x.confidence)
  /-- It writes a partition if it gets to the first call that does. -/
  written : ∀ q < g.partitions, ∀ x, g.firstWrite? visits q = some x →
    t.get? .write q = some x.confidence
  /-- It writes a partition that is only read if it leaves the path. -/
  unwritten : ∀ q < g.partitions, q ∈ g.touchedBy visits → g.firstWrite? visits q = none →
    t.get? .write q = some (1 - last)
  /-- Of a partition that is not touched, what START says, and nothing where START says nothing. -/
  untouched : ∀ q < g.partitions, q ∉ g.touchedBy visits → ∀ field,
    t.get? field q = some ((start.probs.get? field q).getD 0)
  /-- If one partition is touched, the least of one and of what START says about being done at the
  others. -/
  alone : (g.touchedBy visits).card = 1 → ∃ p ∈ g.doneElsewhere start visits, t.single = some p
    ∧ (Scalar.Ranks (g.doneElsewhere start visits) → IsLeast (g.doneElsewhere start visits) p)
  nowhere : g.touchedBy visits = ∅ → t.single = some 0
  /-- If there are more, the transaction stays at one if it does not get to the second. -/
  spread : 1 < (g.touchedBy visits).card →
    ∃ x, g.Spreads visits x ∧ t.single = some (1 - x.confidence)
  /-- Too few transactions are known to tell what aborts. -/
  unsure : start.totalHits < minHits → t.abort = some 1
  harmless : minHits ≤ start.totalHits → g.abortsMet visits = [] → t.abort = some 0
  /-- Otherwise the greatest of the abort probabilities that are known of the calls visited. -/
  abort : minHits ≤ start.totalHits → g.abortsMet visits ≠ [] → ∃ a ∈ g.abortsMet visits,
    t.abort = some a
    ∧ (Scalar.Ranks {b | b ∈ g.abortsMet visits} → IsGreatest {b | b ∈ g.abortsMet visits} a)

end Foretold

namespace Graph.Foretold

variable {g : Graph Rat} {start : Vertex Rat} {minHits : Nat} {visits : List (Stop Rat)} {last : Rat}
  {t : ProbabilityTable Rat}

/-- In exact arithmetic the least is the least. -/
theorem isLeast_single (h : g.Foretold start minHits visits last t)
    (hone : (g.touchedBy visits).card = 1) : ∃ p, t.single = some p
      ∧ IsLeast (insert 1 ((fun q => (start.probs.get? .done q).getD 0) ''
        {q | q < g.partitions ∧ q ∉ g.touchedBy visits})) p := by
  obtain ⟨p, _, hp, hleast⟩ := h.alone hone
  exact ⟨p, hp, hleast (Scalar.ranks_rat _)⟩

/-- In exact arithmetic the greatest is the greatest. -/
theorem isGreatest_abort (h : g.Foretold start minHits visits last t)
    (hmany : minHits ≤ start.totalHits) (hsome : g.abortsMet visits ≠ []) :
    ∃ a, t.abort = some a ∧ IsGreatest {b | b ∈ g.abortsMet visits} a := by
  obtain ⟨a, _, ha, hgreatest⟩ := h.abort hmany hsome
  exact ⟨a, ha, hgreatest (Scalar.ranks_rat _)⟩

end Graph.Foretold

namespace Walker

section Single

variable {R : Type} [Scalar R] {w : Walker R}

/-- Filling in the partitions has no say in whether there is one. -/
theorem single_foldl_settlePartition (w : Walker R) (start t : ProbabilityTable R) (ps : List Nat) :
    (ps.foldl (w.settlePartition start) t).single = t.single := by
  induction ps generalizing t with
  | nil => rfl
  | cons p ps ih =>
    rw [List.foldl_cons, ih, settlePartition]
    dsimp only
    split_ifs <;> rfl

/-- Whether there is one partition, at the end of a walk. -/
theorem single_settle (w : Walker R) (g : Graph R) (start : Vertex R) (minHits : Nat) :
    (w.settle g start minHits).estimate.probs.single
      = if w.touched.size = 1 then some (w.leastUntouchedDone start.probs g.partitions)
        else some (w.estimate.probs.single.getD 0) := by
  simp only [settle, single_foldl_settlePartition]

/-- The abort probability at the end of a walk: certain if START was hit too rarely to tell, and
else the greatest that was met. -/
theorem abort_settle (w : Walker R) (g : Graph R) (start : Vertex R) (minHits : Nat) :
    (w.settle g start minHits).estimate.probs.abort
      = some (if minHits ≤ start.totalHits then w.greatestAbort.getD 0 else 1) := rfl

end Single

end Walker

namespace Graph

variable {R : Type} [Scalar R] {g : Graph R} {w : Walker R} {visits : List (Stop R)}

/-- What a walk finds when it looks through the partitions that were not touched. -/
theorem Told.doneElsewhere_eq (h : g.Told visits w) (start : Vertex R) :
    g.doneElsewhere start visits = insert 1 ((fun q => (start.probs.get? .done q).getD 0) ''
      {q | q ∈ (List.range g.partitions).filter fun p => !decide (p ∈ w.touched)}) := by
  have hset : {q | q < g.partitions ∧ q ∉ g.touchedBy visits}
      = {q | q ∈ (List.range g.partitions).filter fun p => !decide (p ∈ w.touched)} := by
    ext q
    simp [h.touched]
  rw [doneElsewhere, hset]

/-- What a walk was told foretells the transaction. Each field is read off what the walk noted at
the visits that decide it: the first touch of a partition, the visit that spread the transaction,
and for aborts all visits at which a probability of it is known. -/
theorem Told.foretold (h : g.Told visits w) (start : Vertex R) (minHits : Nat) :
    g.Foretold start minHits visits w.confidence (w.settle g start minHits).estimate.probs where
  done q hq x hx := (h.settled_touched hq hx).1
  written q hq x hx := by
    cases hfirst : g.firstTouch? visits q with
    | none => exact nomatch (firstTouch?_eq_none.mp hfirst).2.symm.trans hx
    | some y => rw [(h.settled_touched hq hfirst).2.2, hx, Option.map_some, Option.getD_some]
  unwritten q hq htouched hunwritten := by
    cases hfirst : g.firstTouch? visits q with
    | none => exact absurd htouched (firstTouch?_eq_none_iff.mp hfirst)
    | some y =>
      rw [(h.settled_touched hq hfirst).2.2, hunwritten, Option.map_none, Option.getD_none]
  untouched q hq huntouched := h.settled_untouched hq (firstTouch?_eq_none_iff.mpr huntouched)
  alone hone := by
    rw [w.single_settle, PartitionSet.size_eq_card h.touched, if_pos hone]
    rw [h.doneElsewhere_eq start]
    exact ⟨_, Scalar.foldl_smaller_mem _ 1 _, rfl, Scalar.Ranks.isLeast_foldl_smaller⟩
  nowhere hnone := by
    have hopen : w.estimate.probs.single = none :=
      Option.isNone_iff_eq_none.mp (h.undecided.mpr (by simp [hnone]))
    rw [w.single_settle, PartitionSet.size_eq_card h.touched, hopen, hnone]
    rfl
  -- It was decided at the visit that spread the transaction, and not again.
  spread hmany := by
    obtain ⟨x, hx⟩ := exists_spreads hmany
    obtain ⟨before, after, hsplit, hone, htwo⟩ := id hx
    refine ⟨x, hx, ?_⟩
    rw [w.single_settle, PartitionSet.size_eq_card h.touched, if_neg hmany.ne',
      h.decided before x after hsplit hone htwo, Option.getD_some]
  unsure hfew := by
    rw [w.abort_settle, if_neg hfew.not_ge]
  harmless hmany hnone := by
    rw [w.abort_settle, if_pos hmany, h.greatestAbort, hnone]
    rfl
  abort hmany hsome := by
    rw [w.abort_settle, if_pos hmany, h.greatestAbort]
    rcases greatest_cases (g.abortsMet visits) with ⟨hnone, _⟩ | ⟨a, ha, hgreatest⟩
    · exact absurd hnone hsome
    · exact ⟨a, ha, by rw [hgreatest, Option.getD_some],
        fun hranks => isGreatest_greatest hranks hgreatest⟩

end Graph

namespace Walker

/-- Every walk that gives a result has a trail, and its estimate is what the visits of the trail
foretell: of a partition that was touched, the confidence of its first visit; of any other one, what
START says; of the transaction as a whole, the visit by which a second partition was touched, and
the greatest abort probability that was met. Numbers need not be ordered for this. Where they are
ranked, a least and a greatest one are what these words say. -/
theorem traverse_foretold {R : Type} [Scalar R] {j : Journey R} {w w' : Walker R} {origin : Nat}
    (hw : w.Clean) (hrun : w.traverse j origin = .ok w') :
    ∃ visits last s start, j.Trail w origin visits last
      ∧ w'.visited = visits.map Stop.vertex
      ∧ visits.getLast?.map Stop.confidence = some w'.confidence
      ∧ j.graph.sentinels = some s ∧ j.graph.vertices[s.start]? = some start
      ∧ j.graph.Foretold start j.minHitsForAbort visits w'.confidence w'.estimate.probs := by
  obtain ⟨visits, last, start, s, htrail, hs, hstart, rfl⟩ := traverse_trail hw hrun
  obtain ⟨hvisited, hconfidence⟩ := htrail.visited hw
  exact ⟨visits, last, s, start, htrail, hvisited, hconfidence, hs, hstart,
    (htrail.told hw).foretold start j.minHitsForAbort⟩

/-! ### Counters that do not add up -/

/-- A procedure that looks something up. -/
def lookUp : Procedure := ⟨0, "look up", [], [⟨0, "find", .select, [], []⟩], false, true, none⟩

/-- A record in which START is left twice but was visited once. -/
def overcount : GraphRecord :=
  ⟨"look up", 0, 0, 2, 1, [⟨.start, 1, 0, 0⟩, ⟨.commit, 1, 0, 0⟩, ⟨.abort, 0, 0, 0⟩,
    ⟨.query ⟨0, 0, .singleton 0, .select⟩, 1, 0, 0⟩], [⟨0, 3, 2⟩, ⟨3, 1, 1⟩]⟩

/-- The graph of the record. -/
def overcounted : Graph Rat :=
  match overcount.load ⟨2, [], [lookUp]⟩ with
  | .ok (.ok g) => g
  | _ => .fresh 0 0 2

/-- A walk over this graph, of which nothing is known. -/
def overcounting : Journey Rat :=
  ⟨overcounted, lookUp, ∅, ⟨2, fun _ _ => .ok 0, fun _ _ _ _ => .ok (.singleton 0)⟩, [],
    .firstFound, true, 1⟩

/-- The walk touches the first partition and may stay there for certain. -/
theorem traverse_overcounting : ∃ w', new.traverse overcounting 0 = .ok w'
    ∧ w'.visited = [0, 3, 1] ∧ w'.touched = .singleton 0 ∧ w'.estimate.probs.single = some 1 := by
  have hwalk : (new.traverse overcounting 0).toOption.map (fun w =>
      (w.visited, w.touched, w.estimate.probs.single)) = some ([0, 3, 1], .singleton 0, some 1) := by
    decide +kernel
  obtain ⟨w', hrun, hseen⟩ := Option.map_eq_some_iff.mp hwalk
  obtain ⟨hvisited, hseen⟩ := Prod.mk.inj hseen
  obtain ⟨htouched, hsingle⟩ := Prod.mk.inj hseen
  exact ⟨w', Outcome.of_toOption hrun, hvisited, htouched, hsingle⟩

/-- What is predicted of the walk is what its three visits foretell. -/
theorem traverse_foretold_overcounting :
    ∃ w' visits last s start, new.traverse overcounting 0 = .ok w'
      ∧ overcounting.Trail .new 0 visits last ∧ visits.map Stop.vertex = [0, 3, 1]
      ∧ overcounted.sentinels = some s ∧ overcounted.vertices[s.start]? = some start
      ∧ overcounted.Foretold start 1 visits w'.confidence w'.estimate.probs := by
  obtain ⟨w', hrun, hvisited, _, _⟩ := traverse_overcounting
  obtain ⟨visits, last, s, start, htrail, hpath, _, hs, hstart, hforetold⟩ :=
    traverse_foretold clean_new hrun
  exact ⟨w', visits, last, s, start, hrun, htrail, hpath.symm.trans hvisited, hs, hstart, hforetold⟩

/-- It is not true that the probability of one partition is one that START has of being done at
another: at the only other one START is done with a probability of two. -/
theorem overcounted_single :
    ¬ ∀ (j : Journey Rat) (w' : Walker Rat) (s : Sentinels) (start : Vertex Rat) (p : Rat),
      new.traverse j 0 = .ok w' → j.graph.sentinels = some s →
        j.graph.vertices[s.start]? = some start → w'.touched.size = 1 →
        (∃ q < j.graph.partitions, q ∉ w'.touched) → w'.estimate.probs.single = some p →
          IsLeast {x | ∃ q < j.graph.partitions, q ∉ w'.touched
            ∧ x = (start.probs.get? .done q).getD 0} p := by
  intro hleast
  obtain ⟨w', hrun, _, htouched, hsingle⟩ := traverse_overcounting
  have hstart : ∃ start, overcounted.vertices[0]? = some start
      ∧ start.probs.get? .done 1 = some 2 := by
    have hlook : (overcounted.vertices[0]?.map fun x => x.probs.get? .done 1) = some (some 2) := by
      decide +kernel
    exact Option.map_eq_some_iff.mp hlook
  obtain ⟨start, hstart, hdone⟩ := hstart
  have hsentinels : overcounted.sentinels = some ⟨0, 1, 2⟩ := by decide +kernel
  have hpartitions : overcounting.graph.partitions = 2 := by decide +kernel
  obtain ⟨⟨q, hq, huntouched, hone⟩, _⟩ := hleast overcounting w' ⟨0, 1, 2⟩ start 1 hrun hsentinels
    hstart (by rw [htouched]; rfl)
    ⟨1, by rw [hpartitions]; decide, by rw [htouched]; decide⟩ hsingle
  have hq : q < 2 := hpartitions ▸ hq
  -- Of the two partitions the first is touched, and the second does not have one.
  obtain rfl | rfl : q = 0 ∨ q = 1 := by omega
  · rw [htouched] at huntouched
    exact huntouched (by decide)
  · rw [hdone] at hone
    exact absurd hone (by decide)

end Walker

end TxnPath
