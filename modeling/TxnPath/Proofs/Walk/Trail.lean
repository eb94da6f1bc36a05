import TxnPath.Proofs.Reuse
import TxnPath.Proofs.Walk.Standing

/-!
# `TxnPath.Proofs.Walk.Trail`: what the visits of a walk tell

A `Stop` is one visit: a vertex and the confidence with which the walk comes there. The trail of
a walk is the list of its visits (`Journey.Trail`). All that a walk knows can be read off its trail.
Of a partition it knows by which visits it was touched, read and written, and with which confidence
each of these happened first (`Graph.standingAfter`). It also knows the visit by which more than one
partition was touched, and the greatest abort probability (`Graph.Told`).

`Journey.Trail.told` is the induction along the trail, and `Walker.traverse_trail` says that every walk
that gives a result has one.
-/

set_option autoImplicit false

namespace TxnPath

variable {R : Type}

/-- A vertex that a walk visits, with the confidence that it has there. -/
structure Stop (R : Type) where
  vertex : Nat
  confidence : R

namespace Graph

variable {g : Graph R} {q v : Nat} {visits : List (Stop R)} {x : Stop R}

/-- The vertex stands for a call that reads the partition. -/
def reads (g : Graph R) (q v : Nat) : Bool :=
  (g.callAt? v).any fun c => decide (q ∈ c.partitions) && c.queryType.isReadOnly

/-- The vertex stands for a call that writes the partition. -/
def writes (g : Graph R) (q v : Nat) : Bool :=
  (g.callAt? v).any fun c => decide (q ∈ c.partitions) && !c.queryType.isReadOnly

/-- The vertex stands for a call that touches the partition. -/
def touches (g : Graph R) (q v : Nat) : Bool := g.reads q v || g.writes q v

/-- The first visit that touches a partition. -/
def firstTouch? (g : Graph R) (visits : List (Stop R)) (q : Nat) : Option (Stop R) :=
  visits.find? fun x => g.touches q x.vertex

/-- The first visit that reads a partition. -/
def firstRead? (g : Graph R) (visits : List (Stop R)) (q : Nat) : Option (Stop R) :=
  visits.find? fun x => g.reads q x.vertex

/-- The first visit that writes a partition. -/
def firstWrite? (g : Graph R) (visits : List (Stop R)) (q : Nat) : Option (Stop R) :=
  visits.find? fun x => g.writes q x.vertex

variable [Scalar R]

/-- The probability that a partition is only read, as far as it is known after some visits. A first
read sets it, and a first write resets it. -/
def readOnlyAfter (g : Graph R) (visits : List (Stop R)) (q : Nat) : Option R :=
  match g.firstTouch? visits q with
  | none => none
  | some x =>
    if g.reads q x.vertex then
      some (if (g.firstWrite? visits q).isNone then x.confidence else 0)
    else some ((g.firstRead? visits q).elim 0 Stop.confidence)

/-- What is known about a partition after some visits. Each entry comes from the first visit that
touches, reads or writes the partition; later ones add nothing. -/
def standingAfter (g : Graph R) (visits : List (Stop R)) (q : Nat) : Standing R where
  touched := (g.firstTouch? visits q).isSome
  read := (g.firstRead? visits q).isSome
  written := (g.firstWrite? visits q).isSome
  done := (g.firstTouch? visits q).map fun x => 1 - x.confidence
  readOnly := g.readOnlyAfter visits q
  write := (g.firstWrite? visits q).map Stop.confidence

omit [Scalar R] in
/-- A visit that writes a partition does not read it: a call does one or the other. -/
theorem reads_eq_false_of_writes (h : g.writes q v = true) : g.reads q v = false := by
  rw [writes] at h
  rw [reads]
  cases hc : g.callAt? v with
  | none => rfl
  | some c =>
    rw [hc, Option.any_some, Bool.and_eq_true] at h
    rw [Option.any_some, Bool.and_eq_false_iff]
    exact .inr (by simpa using h.2)

omit [Scalar R] in
/-- A partition that was neither read nor written was not touched. -/
theorem firstTouch?_eq_none : g.firstTouch? visits q = none
    ↔ g.firstRead? visits q = none ∧ g.firstWrite? visits q = none := by
  simp only [firstTouch?, firstRead?, firstWrite?, List.find?_eq_none, touches, Bool.or_eq_true,
    not_or, ← forall_and]

omit [Scalar R] in
/-- The first visit of a kind stays the first when the walk goes on; only where there was none, the
new visit can be it. -/
theorem find?_concat (p : Stop R → Bool) (visits : List (Stop R)) (x : Stop R) :
    (visits ++ [x]).find? p = (visits.find? p).or (if p x then some x else none) := by
  rw [List.find?_append, List.find?_singleton]

omit [Scalar R] in
/-- The first visit that touches a partition is one that reads or writes it. It is then the first of
its kind, as nothing before it touches the partition at all. -/
theorem firstTouch?_eq_some (h : g.firstTouch? visits q = some x) :
    (g.reads q x.vertex = true → g.firstRead? visits q = some x)
      ∧ (g.reads q x.vertex = false → g.firstWrite? visits q = some x) := by
  obtain ⟨htouches, before, after, rfl, hbefore⟩ := List.find?_eq_some_iff_append.mp h
  have hnone : ∀ y ∈ before, g.reads q y.vertex = false ∧ g.writes q y.vertex = false := by
    intro y hy
    simpa [touches] using hbefore y hy
  refine ⟨fun hreads => ?_, fun hreads => ?_⟩
  · exact List.find?_eq_some_iff_append.mpr
      ⟨hreads, before, after, rfl, fun y hy => by simp [(hnone y hy).1]⟩
  · refine List.find?_eq_some_iff_append.mpr
      ⟨?_, before, after, rfl, fun y hy => by simp [(hnone y hy).2]⟩
    rw [touches, hreads, Bool.false_or] at htouches
    exact htouches

omit [Scalar R] in
/-- What one more visit adds to the first ones. -/
theorem firsts_concat (g : Graph R) (visits : List (Stop R)) (x : Stop R) (q : Nat) :
    g.firstTouch? (visits ++ [x]) q
        = (g.firstTouch? visits q).or (if g.touches q x.vertex then some x else none)
      ∧ g.firstRead? (visits ++ [x]) q
        = (g.firstRead? visits q).or (if g.reads q x.vertex then some x else none)
      ∧ g.firstWrite? (visits ++ [x]) q
        = (g.firstWrite? visits q).or (if g.writes q x.vertex then some x else none) :=
  ⟨find?_concat _ visits x, find?_concat _ visits x, find?_concat _ visits x⟩

/-- A visit that reads a partition meets it with a read. The cases are by how the partition was
touched before: not at all, by a read, or by writes only. -/
theorem standingAfter_concat_read (hr : g.reads q x.vertex = true) :
    g.standingAfter (visits ++ [x]) q = (g.standingAfter visits q).meet true x.confidence := by
  have hw : g.writes q x.vertex = false := by
    by_contra h
    exact nomatch hr.symm.trans (reads_eq_false_of_writes (Bool.eq_true_of_not_eq_false h))
  obtain ⟨htouch, hread, hwrite⟩ := g.firsts_concat visits x q
  have ht : g.touches q x.vertex = true := by simp [touches, hr]
  simp only [ht, hr, hw, if_true] at htouch hread hwrite
  cases hfirst : g.firstTouch? visits q with
  | none =>
    obtain ⟨hnr, hnw⟩ := firstTouch?_eq_none.mp hfirst
    simp [standingAfter, readOnlyAfter, htouch, hread, hwrite, hfirst, hnr, hnw, Standing.meet,
      Standing.note, Standing.noteRead, hr]
  | some y =>
    obtain ⟨hreads, hwrites⟩ := firstTouch?_eq_some hfirst
    cases hy : g.reads q y.vertex with
    | true =>
      simp [standingAfter, readOnlyAfter, htouch, hread, hwrite, hfirst, hreads hy,
        Standing.meet, Standing.note, Standing.noteRead, hy]
    | false =>
      -- The partition was only written before, or it was read and nothing new is noted.
      cases hold : g.firstRead? visits q <;>
        simp [standingAfter, readOnlyAfter, htouch, hread, hwrite, hfirst, hwrites hy, hold,
          Standing.meet, Standing.note, Standing.noteRead, hy]

/-- A visit that writes a partition meets it with a write. The first write decides what is known
from then on, and a later one finds it decided. -/
theorem standingAfter_concat_write (hw : g.writes q x.vertex = true) :
    g.standingAfter (visits ++ [x]) q = (g.standingAfter visits q).meet false x.confidence := by
  have hr : g.reads q x.vertex = false := reads_eq_false_of_writes hw
  obtain ⟨htouch, hread, hwrite⟩ := g.firsts_concat visits x q
  have ht : g.touches q x.vertex = true := by simp [touches, hw]
  simp only [ht, hr, hw, if_true] at htouch hread hwrite
  cases hfirst : g.firstTouch? visits q with
  | none =>
    obtain ⟨hnr, hnw⟩ := firstTouch?_eq_none.mp hfirst
    simp [standingAfter, readOnlyAfter, htouch, hread, hwrite, hfirst, hnr, hnw, Standing.meet,
      Standing.note, Standing.noteWrite, hr]
  | some y =>
    obtain ⟨hreads, hwrites⟩ := firstTouch?_eq_some hfirst
    cases hy : g.reads q y.vertex with
    | true =>
      -- The partition was only read before, or it was written and nothing new is noted.
      cases hold : g.firstWrite? visits q <;>
        simp [standingAfter, readOnlyAfter, htouch, hread, hwrite, hfirst, hreads hy, hold,
          Standing.meet, Standing.note, Standing.noteWrite, hy]
    | false =>
      simp [standingAfter, readOnlyAfter, htouch, hread, hwrite, hfirst, hwrites hy,
        Standing.meet, Standing.note, Standing.noteWrite, hy]

/-- One more visit meets the partitions that it touches. This is the recursion of what is known, in
the order in which a walk comes to know it. -/
theorem standingAfter_concat (g : Graph R) (visits : List (Stop R)) (x : Stop R) (q : Nat) :
    g.standingAfter (visits ++ [x]) q
      = if g.touches q x.vertex then
          (g.standingAfter visits q).meet (g.reads q x.vertex) x.confidence
        else g.standingAfter visits q := by
  cases hr : g.reads q x.vertex with
  | true => rw [touches, hr, Bool.true_or, if_pos rfl, standingAfter_concat_read hr]
  | false =>
    cases hw : g.writes q x.vertex with
    | true => rw [touches, hw, Bool.or_true, if_pos rfl, standingAfter_concat_write hw]
    | false =>
      have ht : g.touches q x.vertex = false := by simp [touches, hr, hw]
      obtain ⟨htouch, hread, hwrite⟩ := g.firsts_concat visits x q
      simp [standingAfter, readOnlyAfter, htouch, hread, hwrite, hr, hw, ht]

/-! ### All partitions together -/

omit [Scalar R] in
/-- The partitions that some visits touch. -/
def touchedBy (g : Graph R) (visits : List (Stop R)) : Finset Nat :=
  (visits.flatMap fun x => (g.callAt? x.vertex).elim [] fun c => c.partitions.toList).toFinset

omit [Scalar R] in
/-- A visit of a call touches the partitions of the call. -/
theorem touches_of_callAt? {c : Call} (h : g.callAt? v = some c) :
    g.touches q v = true ↔ q ∈ c.partitions := by
  rw [touches, reads, writes, h]
  cases hreads : c.queryType.isReadOnly <;> simp [hreads]

omit [Scalar R] in
/-- A visit of a sentinel touches nothing. -/
theorem touches_of_not_callAt? (h : g.callAt? v = none) (q : Nat) : g.touches q v = false := by
  rw [touches, reads, writes, h]
  rfl

omit [Scalar R] in
/-- The partitions touched by a walk are those touched by its visits. -/
theorem mem_touchedBy : q ∈ g.touchedBy visits ↔ ∃ x ∈ visits, g.touches q x.vertex = true := by
  rw [touchedBy, List.mem_toFinset, List.mem_flatMap]
  refine exists_congr fun x => and_congr_right fun _ => ?_
  cases hc : g.callAt? x.vertex with
  | none => simp [touches_of_not_callAt? hc]
  | some c => exact (touches_of_callAt? hc).symm

omit [Scalar R] in
/-- One more visit adds the partitions that it touches. -/
theorem touchedBy_concat : q ∈ g.touchedBy (visits ++ [x])
    ↔ g.touches q x.vertex = true ∨ q ∈ g.touchedBy visits := by
  simp only [mem_touchedBy, List.mem_append, List.mem_singleton]
  constructor
  · rintro ⟨y, hy | rfl, htouches⟩
    · exact .inr ⟨y, hy, htouches⟩
    · exact .inl htouches
  · rintro (htouches | ⟨y, hy, htouches⟩)
    · exact ⟨x, .inr rfl, htouches⟩
    · exact ⟨y, .inl hy, htouches⟩

/-- The abort probabilities that are set at the calls that were visited, in order. -/
def abortsMet (g : Graph R) (visits : List (Stop R)) : List R :=
  visits.filterMap fun x => (g.callAt? x.vertex).bind fun _ => g.abortAt? x.vertex

/-- The greatest of some numbers, from the left. -/
def greatest (xs : List R) : Option R :=
  xs.foldl (fun best x => some ((best.map fun y => Scalar.larger y x).getD x)) none

end Graph

/-- What a walk knows is what its visits tell. It is the invariant of a walk, carried from visit to
visit: registers on the one side, the list of visits on the other. -/
structure Graph.Told [Scalar R] (g : Graph R) (visits : List (Stop R)) (w : Walker R) : Prop where
  sized : w.estimate.probs.Sized g.partitions
  standing : ∀ q < g.partitions, w.standing q = g.standingAfter visits q
  touched : ∀ q, q ∈ w.touched ↔ q ∈ g.touchedBy visits
  /-- Whether there is one partition is decided once there are more. -/
  undecided : w.estimate.probs.single.isNone = true ↔ (g.touchedBy visits).card ≤ 1
  /-- It is decided by the visit by which the second one is touched. -/
  decided : ∀ before x after, visits = before ++ x :: after →
    (g.touchedBy before).card ≤ 1 → 1 < (g.touchedBy (before ++ [x])).card →
      w.estimate.probs.single = some (1 - x.confidence)
  greatestAbort : w.greatestAbort = Graph.greatest (g.abortsMet visits)

omit R in
/-- A partition set has as many elements as the finite set with the same elements. -/
theorem PartitionSet.size_eq_card {s : PartitionSet} {t : Finset Nat} (h : ∀ q, q ∈ s ↔ q ∈ t) :
    s.size = t.card := by
  have hlist : s.toList.toFinset = t := by
    ext q
    rw [List.mem_toFinset]
    exact h q
  have hnodup : s.toList.Nodup := s.ascending.imp Nat.ne_of_lt
  rw [← hlist, List.toFinset_card_of_nodup hnodup]
  rfl

namespace Graph

variable [Scalar R] {g : Graph R} {visits : List (Stop R)} {w w' : Walker R} {v : Nat}

/-- A walk that is about to begin has been told nothing. Its registers are empty, and all entries of
the estimate are unset, so that there is nothing to account for. -/
theorem told_setOut (h : w.Clean) (j : Journey R) (origin : Nat) :
    j.graph.Told [] (w.setOut j origin) where
  sized field := by cases field <;> exact Array.size_replicate
  standing q hq := by
    have hunset : ∀ field, (ProbabilityTable.unset j.graph.partitions :
        ProbabilityTable R).get? field q = none := by
      intro field
      cases field <;>
        simp [ProbabilityTable.unset, ProbabilityTable.get?, ProbabilityTable.column, hq]
    simp only [Walker.standing, Walker.setOut, Estimate.start, h.touched, h.read, h.written, hunset]
    simp [standingAfter, readOnlyAfter, firstTouch?, firstRead?, firstWrite?]
  touched q := by
    rw [show (w.setOut j origin).touched = ∅ from h.touched]
    simp [touchedBy]
  undecided := by simp [Walker.setOut, Estimate.start, ProbabilityTable.unset, touchedBy]
  decided before x after hsplit := absurd hsplit.symm (by simp)
  greatestAbort := h.greatestAbort

omit [Scalar R] in
/-- Where a list with one more visit is taken apart, this visit is the one in the middle or comes
later. -/
theorem split_concat {before after : List (Stop R)} {x y : Stop R}
    (h : visits ++ [y] = before ++ x :: after) :
    (before = visits ∧ x = y) ∨ ∃ earlier, visits = before ++ x :: earlier := by
  rcases List.eq_nil_or_concat after with rfl | ⟨earlier, z, rfl⟩
  · obtain ⟨hbefore, hx⟩ := List.append_inj' h rfl
    exact .inl ⟨hbefore.symm, (List.singleton_inj.mp hx).symm⟩
  · have h' : visits ++ [y] = (before ++ x :: earlier) ++ [z] := by simpa using h
    exact .inr ⟨earlier, (List.append_inj' h' rfl).1⟩

omit [Scalar R] in
/-- So the number of partitions touched does not go down. -/
theorem card_touchedBy_concat (g : Graph R) (visits : List (Stop R)) (x : Stop R) :
    (g.touchedBy visits).card ≤ (g.touchedBy (visits ++ [x])).card :=
  Finset.card_le_card fun _ hq => touchedBy_concat.mpr (.inr hq)

/-- A visit of a call meets what the call touches. Partitions it does not touch stand as before;
whether the transaction is spread is decided by the visit that touches the second partition, and
stays so. -/
theorem Told.meet {c : Call} (h : g.Told visits w) (hc : g.callAt? v = some c)
    (hmeets : Walker.Meets c (g.abortAt? v) g.partitions w w') :
    g.Told (visits ++ [⟨v, w.confidence⟩]) w' := by
  have htouched : ∀ q, q ∈ w'.touched ↔ q ∈ g.touchedBy (visits ++ [⟨v, w.confidence⟩]) := by
    intro q
    rw [hmeets.touched, h.touched, touchedBy_concat, touches_of_callAt? hc]
  have hsingle := hmeets.single
  have hmore := g.card_touchedBy_concat visits ⟨v, w.confidence⟩
  rw [PartitionSet.size_eq_card htouched] at hsingle
  refine
    { sized := hmeets.sized, standing := fun q hq => ?_, touched := htouched, undecided := ?_
      decided := fun before x after hsplit hone hmany => ?_, greatestAbort := ?_ }
  · rw [hmeets.standing q hq, h.standing q hq, standingAfter_concat]
    by_cases hq' : q ∈ c.partitions
    · have hreads : g.reads q v = c.queryType.isReadOnly := by simp [reads, hc, hq']
      simp [hq', (touches_of_callAt? hc).mpr hq', hreads]
    · have htouches : g.touches q v = false := by
        simpa using (touches_of_callAt? hc (q := q)).not.mpr hq'
      simp [hq', htouches]
  -- Whether the transaction is single-sited stays open until a second partition is touched.
  · rw [hsingle]
    by_cases hmany : 1 < (g.touchedBy (visits ++ [⟨v, w.confidence⟩])).card
    · by_cases hopen : w.estimate.probs.single.isNone = true
      · simp [hmany, hopen]
      · simp [hmany, hopen]
    · rw [if_neg fun hboth => hmany hboth.1]
      exact iff_of_true (h.undecided.mpr (by omega)) (by omega)
  · rcases split_concat hsplit with ⟨rfl, rfl⟩ | ⟨earlier, hearlier⟩
    · rw [hsingle, if_pos ⟨hmany, h.undecided.mpr hone⟩]
    · -- It was decided before this visit.
      rw [hsingle, h.decided before x earlier hearlier hone hmany]
      simp
  · rw [hmeets.greatestAbort, abortsMet, List.filterMap_append, greatest, List.foldl_append]
    rw [h.greatestAbort, abortsMet, greatest]
    cases habort : g.abortAt? v with
    | none => simp [hc, habort]
    | some a => simp [hc, habort]

/-- A visit of a sentinel tells nothing. It is on the list of visits all the same, and touches no
partition. -/
theorem Told.pass (h : g.Told visits w) (hnone : g.callAt? v = none) (confidence : R) :
    g.Told (visits ++ [⟨v, confidence⟩]) w := by
  have htouches := touches_of_not_callAt? hnone
  have hsame : g.touchedBy (visits ++ [⟨v, confidence⟩]) = g.touchedBy visits := by
    ext q
    rw [touchedBy_concat, htouches q]
    simp
  -- No partition has more visits than before, and no abort probability was met.
  refine
    { sized := h.sized, standing := fun q hq => ?_, touched := ?_, undecided := ?_
      decided := fun before x after hsplit hone hmany => ?_, greatestAbort := ?_ }
  · rw [standingAfter_concat, htouches q]
    exact h.standing q hq
  · rw [hsame]
    exact h.touched
  · rw [hsame]
    exact h.undecided
  · rcases split_concat hsplit with ⟨rfl, rfl⟩ | ⟨earlier, hearlier⟩
    · rw [hsame] at hmany
      exact absurd hmany hone.not_gt
    · exact h.decided before x earlier hearlier hone hmany
  · rw [abortsMet, List.filterMap_append]
    simpa [hnone, abortsMet] using h.greatestAbort

/-- Every visit is one or the other: it meets the partitions of a call, or passes a sentinel. -/
theorem Told.visit (h : g.Told visits w) (hvisit : w.visit g v = .ok w') :
    g.Told (visits ++ [⟨v, w.confidence⟩]) w' := by
  rcases Walker.visit_cases h.sized hvisit with ⟨c, hc, hmeets⟩ | ⟨hnone, rfl⟩
  · exact h.meet hc hmeets
  · have hpass := h.pass hnone w.confidence
    exact ⟨hpass.sized, hpass.standing, hpass.touched, hpass.undecided, hpass.decided,
      hpass.greatestAbort⟩

/-! ### The entries at the end -/

variable {start : Vertex R} {minHits : Nat} {q : Nat} {x : Stop R}

/-- The entries of a partition that was touched, at the end of a walk. They are those that the
visits have set, completed by zero and by what is left of the confidence. -/
theorem Told.settled_touched (h : g.Told visits w) (hq : q < g.partitions)
    (hx : g.firstTouch? visits q = some x) :
    (w.settle g start minHits).estimate.probs.get? .done q = some (1 - x.confidence)
      ∧ (w.settle g start minHits).estimate.probs.get? .readOnly q
        = some ((g.readOnlyAfter visits q).getD 0)
      ∧ (w.settle g start minHits).estimate.probs.get? .write q
        = some (((g.firstWrite? visits q).map Stop.confidence).getD (1 - w.confidence)) := by
  have hstanding := h.standing q hq
  -- What stands of the partition is what the visits say, field by field.
  have htouched : q ∈ w.touched := by
    have hflag := congrArg Standing.touched hstanding
    simpa [Walker.standing, standingAfter, hx] using hflag
  have hdone : w.estimate.probs.get? .done q = some (1 - x.confidence) := by
    have hentry := congrArg Standing.done hstanding
    simpa [Walker.standing, standingAfter, hx] using hentry
  have hread : w.estimate.probs.get? .readOnly q = g.readOnlyAfter visits q :=
    congrArg Standing.readOnly hstanding
  have hwrite : w.estimate.probs.get? .write q
      = (g.firstWrite? visits q).map Stop.confidence := congrArg Standing.write hstanding
  simp only [Walker.get?_settle h.sized hq, Walker.settledEntries, htouched, if_true, hdone, hread,
    hwrite, and_self]

/-- The entries of a partition that was not touched are those of START. -/
theorem Told.settled_untouched (h : g.Told visits w) (hq : q < g.partitions)
    (hnone : g.firstTouch? visits q = none) (field : PartitionField) :
    (w.settle g start minHits).estimate.probs.get? field q
      = some ((start.probs.get? field q).getD 0) := by
  have huntouched : q ∉ w.touched := by
    have hflag := congrArg Standing.touched (h.standing q hq)
    simpa [Walker.standing, standingAfter, hnone] using hflag
  rw [Walker.get?_settle h.sized hq, Walker.settledEntries, if_neg huntouched]

end Graph

/-! ### Trails -/

namespace Journey

variable [Scalar R] {j : Journey R} {w w' : Walker R} {origin : Nat} {visits : List (Stop R)}

/-- The visits of a walker that was sent out, up to where it stands now. -/
inductive Trail (j : Journey R) (w : Walker R) (origin : Nat) : List (Stop R) → Walker R → Prop
  /-- The first visit is to the origin. -/
  | first {w' : Walker R} (h : (w.setOut j origin).visit j.graph origin = .ok w') :
    Trail j w origin [⟨origin, 1⟩] w'
  /-- A turn leads to the next visit. -/
  | turn {visits : List (Stop R)} {w₁ w₂ : Walker R} {v : Nat} (h : Trail j w origin visits w₁)
    (hturn : j.Strides w₁ w₂) (hlast : w₂.visited.getLast? = some v) :
    Trail j w origin (visits ++ [⟨v, w₂.confidence⟩]) w₂

/-- So the trail tells what the walk knows, by induction along it. -/
theorem Trail.told (h : j.Trail w origin visits w') (hw : w.Clean) : j.graph.Told visits w' := by
  induction h with
  | first hvisit => exact (Graph.told_setOut hw j origin).visit hvisit
  | turn _ hturn hlast ih =>
    obtain ⟨v, chosen, others, forced, _, _, _, hvisit⟩ := hturn
    obtain ⟨hvisited, hconfidence, _⟩ := Walker.visit_frame hvisit
    rw [hvisited, List.getLast?_concat] at hlast
    obtain rfl := Option.some.inj hlast
    rw [hconfidence]
    -- To choose an edge changes the confidence, of which nothing is told.
    have hchosen : j.graph.Told _ (Walker.choose _ chosen others forced) :=
      ⟨ih.sized, ih.standing, ih.touched, ih.undecided, ih.decided, ih.greatestAbort⟩
    exact hchosen.visit hvisit

/-- A trail lists the vertices visited, and the last confidence is the one that the walk has. It
takes a clean walker to begin with, which has visited nothing yet. -/
theorem Trail.visited (h : j.Trail w origin visits w') (hw : w.Clean) :
    w'.visited = visits.map Stop.vertex
      ∧ visits.getLast?.map Stop.confidence = some w'.confidence := by
  induction h with
  | first hvisit =>
    obtain ⟨hvisited, hconfidence, _⟩ := Walker.visit_frame hvisit
    refine ⟨?_, congrArg some hconfidence.symm⟩
    rw [hvisited, show (w.setOut j origin).visited = [] from hw.visited]
    rfl
  | turn _ hturn hlast ih =>
    obtain ⟨v, chosen, others, forced, _, _, _, hvisit⟩ := hturn
    have hvisited := (Walker.visit_frame hvisit).1
    rw [hvisited, List.getLast?_concat] at hlast
    obtain rfl := Option.some.inj hlast
    rw [hvisited, List.map_append, List.getLast?_concat]
    exact ⟨congrArg (· ++ [chosen.target]) ih.1, rfl⟩

/-- The first visit and the turns that follow it make a trail. -/
theorem trail_of_strides {first : Walker R}
    (hvisit : (w.setOut j origin).visit j.graph origin = .ok first)
    (hturns : Relation.ReflTransGen j.Strides first w') : ∃ visits, j.Trail w origin visits w' := by
  induction hturns with
  | refl => exact ⟨_, .first hvisit⟩
  | tail _ hturn ih =>
    obtain ⟨visits, hvisits⟩ := ih
    obtain ⟨v, chosen, others, forced, _, _, _, hvisit'⟩ := id hturn
    have hlast := (Walker.visit_frame hvisit').1
    exact ⟨_, hvisits.turn hturn (hlast ▸ List.getLast?_concat)⟩

end Journey

namespace Walker

variable [Scalar R] {j : Journey R} {w w' : Walker R} {origin : Nat}

/-- A walk that gives a result has a trail, and what its visits tell is completed from START. The
trail begins at the origin, and its last turn leaves the walk that is settled. -/
theorem traverse_trail (hw : w.Clean) (hrun : w.traverse j origin = .ok w') :
    ∃ visits last start s, j.Trail w origin visits last ∧ j.graph.sentinels = some s
      ∧ j.graph.vertices[s.start]? = some start
      ∧ w' = last.settle j.graph start j.minHitsForAbort := by
  rw [traverse, hw.isInitialized] at hrun
  obtain ⟨first, hvisit, hrun⟩ := Outcome.bind_ok hrun
  obtain ⟨last, hfollow, hrun⟩ := Outcome.bind_ok hrun
  obtain ⟨s, hs, hrun⟩ := Outcome.bind_ok hrun
  have hvisit : (w.setOut j origin).visit j.graph origin = .ok first := hvisit
  have hlast : first.visited.getLast? = some origin := by
    rw [(visit_frame hvisit).1, List.getLast?_concat]
  -- The turns that were taken are the trail, from the first visit on.
  obtain ⟨visits, htrail⟩ := Journey.trail_of_strides hvisit
    (Journey.follow_strides hlast hfollow)
  split at hrun
  · cases hrun
  · next start hstart =>
    cases hrun
    exact ⟨visits, last, start, s, htrail, Graph.requireSentinels_ok_iff.mp hs, hstart, rfl⟩

end Walker

end TxnPath
