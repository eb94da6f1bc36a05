import Mathlib
import TxnPath.Graph.Replay
import TxnPath.Proofs.Walk.Trail

/-!
# `TxnPath.Proofs.Walk.ReadOnly`: partitions that are only read

The first visit that writes a partition resets the probability that it is only read. The first visit
that reads it sets this probability, and does not look at whether the partition was written before. So
the order matters. `Walker.traverse_readOnly` says what comes out at the end of a walk, for every
partition and every order of visits. A partition that is only read has the confidence of the first
read, and one that is written has zero, unless it was written before it was first read: then it has
the confidence of the first read as well (`Graph.ReadAfterWrite`).

`written_then_read` is a walk over what one transaction left that wrote a row and read it again. It
predicts that the partition is written, and that it is only read, and both for certain.
-/

set_option autoImplicit false

namespace TxnPath

variable {R : Type}

namespace Graph

variable {g : Graph R} {visits : List (Stop R)} {x y : Stop R} {q : Nat}

/-- The visit is the first one that reads a partition, and the partition was written before. -/
def ReadAfterWrite (g : Graph R) (visits : List (Stop R)) (q : Nat) (x : Stop R) : Prop :=
  g.reads q x.vertex = true ∧ ∃ before after, visits = before ++ x :: after
    ∧ (∀ y ∈ before, g.reads q y.vertex = false) ∧ ∃ y ∈ before, g.writes q y.vertex = true

/-- The read after the write is the first read of its partition. -/
theorem ReadAfterWrite.firstRead? (h : g.ReadAfterWrite visits q x) :
    g.firstRead? visits q = some x := by
  obtain ⟨hreads, before, after, rfl, hbefore, _⟩ := h
  exact List.find?_eq_some_iff_append.mpr
    ⟨hreads, before, after, rfl, fun y hy => by simp [hbefore y hy]⟩

/-- A partition that is written before it is read is first touched by a write. The first form speaks
of the whole list of visits, and the second of two look-ups in it, which is how a walk comes to
know. -/
theorem readAfterWrite_iff : g.ReadAfterWrite visits q x
    ↔ g.firstRead? visits q = some x
      ∧ ∃ y, g.firstTouch? visits q = some y ∧ g.reads q y.vertex = false := by
  constructor
  · intro h
    refine ⟨h.firstRead?, ?_⟩
    obtain ⟨_, before, after, rfl, hbefore, y, hy, hwrites⟩ := h
    have hsome : (before.find? fun z => g.touches q z.vertex).isSome = true :=
      List.find?_isSome.mpr ⟨y, hy, by simp [touches, hwrites]⟩
    obtain ⟨z, hz⟩ := Option.isSome_iff_exists.mp hsome
    refine ⟨z, ?_, hbefore z (List.mem_of_find?_eq_some hz)⟩
    rw [firstTouch?, List.find?_append, hz, Option.some_or]
  · rintro ⟨hread, y, htouch, hy⟩
    obtain ⟨hreads, before, after, rfl, hbefore⟩ := List.find?_eq_some_iff_append.mp hread
    refine ⟨hreads, before, after, rfl, fun z hz => by simpa using hbefore z hz, y, ?_⟩
    -- If nothing before the first read touched the partition, the first read would touch it first.
    have hx : g.touches q x.vertex = true := by simp [touches, hreads]
    rw [firstTouch?, List.find?_append, List.find?_cons, hx] at htouch
    cases hfound : before.find? fun z => g.touches q z.vertex with
    | none =>
      rw [hfound, Option.none_or] at htouch
      obtain rfl := Option.some.inj htouch
      exact absurd (hreads.symm.trans hy) (by decide)
    | some z =>
      rw [hfound, Option.some_or] at htouch
      obtain rfl := Option.some.inj htouch
      have htouches := List.find?_some hfound
      rw [touches, hy, Bool.false_or] at htouches
      exact ⟨List.mem_of_find?_eq_some hfound, htouches⟩

variable [Scalar R]

/-- A partition that is only read has the confidence of the first read. -/
theorem readOnlyAfter_of_unwritten (hread : g.firstRead? visits q = some x)
    (hwrite : g.firstWrite? visits q = none) : g.readOnlyAfter visits q = some x.confidence := by
  cases hfirst : g.firstTouch? visits q with
  | none => exact nomatch (firstTouch?_eq_none.mp hfirst).1.symm.trans hread
  | some y =>
    obtain ⟨hreads, hwrites⟩ := firstTouch?_eq_some hfirst
    cases hy : g.reads q y.vertex with
    | true =>
      obtain rfl := Option.some.inj ((hreads hy).symm.trans hread)
      simp [readOnlyAfter, hfirst, hy, hwrite]
    | false => exact nomatch hwrite.symm.trans (hwrites hy)

/-- A partition that is written has the confidence of the first read if it was written before, and
else none. -/
theorem readOnlyAfter_of_written (hwrite : (g.firstWrite? visits q).isSome = true) :
    (∀ x, g.ReadAfterWrite visits q x → g.readOnlyAfter visits q = some x.confidence)
      ∧ ((¬ ∃ x, g.ReadAfterWrite visits q x) → g.readOnlyAfter visits q = some 0) := by
  refine ⟨fun x hx => ?_, fun hnone => ?_⟩
  · obtain ⟨hread, y, hfirst, hy⟩ := readAfterWrite_iff.mp hx
    simp [readOnlyAfter, hfirst, hy, hread]
  · cases hfirst : g.firstTouch? visits q with
    | none => simp [(firstTouch?_eq_none.mp hfirst).2] at hwrite
    | some y =>
      cases hy : g.reads q y.vertex with
      | true =>
        have hunset : (g.firstWrite? visits q).isNone = false := by simpa using hwrite
        simp [readOnlyAfter, hfirst, hy, hunset]
      | false =>
        cases hread : g.firstRead? visits q with
        | none => simp [readOnlyAfter, hfirst, hy, hread]
        | some x => exact absurd ⟨x, readAfterWrite_iff.mpr ⟨hread, y, hfirst, hy⟩⟩ hnone

end Graph

namespace Walker

variable [Scalar R] {j : Journey R} {w w' : Walker R} {origin : Nat}

/-- The probability that a partition is only read, at the end of a walk. If the visits only read the
partition, it is the confidence of the first visit that does. If some visit writes it, it is zero,
unless it is written before the first visit that reads it: then it is the confidence of that visit. -/
theorem traverse_readOnly (hw : w.Clean) (hrun : w.traverse j origin = .ok w') :
    ∃ visits last, j.Trail w origin visits last ∧ w'.visited = visits.map Stop.vertex
      ∧ ∀ q < j.graph.partitions,
        (∀ x, j.graph.firstRead? visits q = some x → j.graph.firstWrite? visits q = none →
          w'.estimate.probs.get? .readOnly q = some x.confidence)
        ∧ ((j.graph.firstWrite? visits q).isSome = true →
          (∀ x, j.graph.ReadAfterWrite visits q x →
            w'.estimate.probs.get? .readOnly q = some x.confidence)
          ∧ ((¬ ∃ x, j.graph.ReadAfterWrite visits q x) →
            w'.estimate.probs.get? .readOnly q = some 0)) := by
  obtain ⟨visits, last, start, s, htrail, _, _, rfl⟩ := traverse_trail hw hrun
  have htold := htrail.told hw
  refine ⟨visits, last, htrail, (htrail.visited hw).1, fun q hq => ?_⟩
  -- What is known of a touched partition is not changed at the end.
  have hkept : ∀ r, j.graph.readOnlyAfter visits q = some r →
      (last.settle j.graph start j.minHitsForAbort).estimate.probs.get? .readOnly q = some r := by
    intro r hr
    cases hfirst : j.graph.firstTouch? visits q with
    | none => simp [Graph.readOnlyAfter, hfirst] at hr
    | some y => rw [(htold.settled_touched hq hfirst).2.1, hr, Option.getD_some]
  refine ⟨fun x hread hwrite => hkept _ (Graph.readOnlyAfter_of_unwritten hread hwrite),
    fun hwrite => ?_⟩
  obtain ⟨hbefore, hafter⟩ := Graph.readOnlyAfter_of_written hwrite
  exact ⟨fun x hx => hkept _ (hbefore x hx), fun hnone => hkept _ (hafter hnone)⟩

/-! ### A row that is written and read again -/

/-- A procedure that debits an account and looks at the balance. -/
def debit : Procedure :=
  ⟨0, "debit", [], [⟨0, "write", .update, [], []⟩, ⟨1, "balance", .select, [], []⟩], false, true,
    none⟩

/-- Everything is at one partition. -/
def oneHome : Router := ⟨1, fun _ _ => .ok 0, fun _ _ _ _ => .ok (.singleton 0)⟩

/-- What one debit leaves. -/
def debited : Graph Rat :=
  (((Graph.fresh 0 0 1).replay
      ⟨1, 0, [], [⟨0, [], 0, false, none⟩, ⟨1, [], 0, false, none⟩], false⟩
      debit oneHome).toOption.bind
    fun recorded => recorded.1.recompute.toOption).getD (.fresh 0 0 1)

/-- A walk of the next debit, of which nothing is known. -/
def nextDebit : Journey Rat := ⟨debited, debit, ∅, oneHome, [], .firstFound, true, 1⟩

/-- The walk writes the account at vertex 3 and reads it at vertex 4. -/
theorem traverse_nextDebit : ∃ w', new.traverse nextDebit 0 = .ok w' ∧ w'.visited = [0, 3, 4, 1]
    ∧ w'.estimate.probs.get? .readOnly 0 = some 1 := by
  have hwalk : (new.traverse nextDebit 0).toOption.map (fun w =>
      (w.visited, w.estimate.probs.get? .readOnly 0)) = some ([0, 3, 4, 1], some 1) := by
    decide +kernel
  obtain ⟨w', hrun, hseen⟩ := Option.map_eq_some_iff.mp hwalk
  obtain ⟨hvisited, hentry⟩ := Prod.mk.inj hseen
  exact ⟨w', Outcome.of_toOption hrun, hvisited, hentry⟩

/-- The partition is read with certainty after it was written, and this is what is predicted. -/
theorem traverse_readOnly_nextDebit :
    ∃ visits last w', new.traverse nextDebit 0 = .ok w' ∧ nextDebit.Trail .new 0 visits last
      ∧ visits.map Stop.vertex = [0, 3, 4, 1]
      ∧ ∃ x, debited.ReadAfterWrite visits 0 x ∧ x.vertex = 4
        ∧ w'.estimate.probs.get? .readOnly 0 = some x.confidence := by
  obtain ⟨w', hrun, hvisited, _⟩ := traverse_nextDebit
  obtain ⟨visits, last, htrail, hpath, hall⟩ := traverse_readOnly clean_new hrun
  rw [hvisited] at hpath
  obtain ⟨a, rest, rfl, ha, hpath⟩ := List.map_eq_cons_iff.mp hpath.symm
  obtain ⟨b, rest, rfl, hb, hpath⟩ := List.map_eq_cons_iff.mp hpath
  obtain ⟨c, rest, rfl, hc, hpath⟩ := List.map_eq_cons_iff.mp hpath
  have hcalls : debited.reads 0 0 = false ∧ debited.reads 0 3 = false
      ∧ debited.writes 0 3 = true ∧ debited.reads 0 4 = true := by
    decide +kernel
  -- The partition is written at vertex 3 and read at vertex 4, which is the next stop.
  have hagain : debited.ReadAfterWrite (a :: b :: c :: rest) 0 c :=
    ⟨by rw [hc]; exact hcalls.2.2.2, [a, b], rest, rfl, by simp [ha, hb, hcalls],
      b, by simp, by rw [hb]; exact hcalls.2.2.1⟩
  have hwritten : (debited.firstWrite? (a :: b :: c :: rest) 0).isSome = true :=
    List.find?_isSome.mpr ⟨b, by simp, by rw [hb]; exact hcalls.2.2.1⟩
  have hsize : 0 < nextDebit.graph.partitions := by decide +kernel
  exact ⟨_, last, w', hrun, htrail, by simp [ha, hb, hc, hpath], c, hagain, hc,
    ((hall 0 hsize).2 hwritten).1 c hagain⟩

/-- It is not true that partitions that are written are never predicted to be only read. -/
theorem written_then_read :
    ¬ ∀ (j : Journey Rat) (w' : Walker Rat) (q v : Nat), new.traverse j 0 = .ok w' →
      v ∈ w'.visited → j.graph.writes q v = true →
        w'.estimate.probs.get? .readOnly q = some 0 := by
  intro hnever
  obtain ⟨w', hrun, hvisited, hentry⟩ := traverse_nextDebit
  have hzero := hnever nextDebit w' 0 3 hrun (by simp [hvisited]) (by decide +kernel)
  rw [hentry] at hzero
  exact absurd hzero (by decide)

end Walker

end TxnPath
