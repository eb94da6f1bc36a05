import Mathlib.Data.List.Nodup
import TxnPath.Proofs.Graph.Derive
import TxnPath.Walk

/-!
# `TxnPath.Proofs.Walk.Candidates`: the edges that a walk looks for, and those it finds

`Journey.candidates` finds the edges to take in several passes: a look at all edges that lead on, a
search for every statement and occurrence met, one order by number with neighbours of one number
dropped, and another order by probability. This module says what comes out of them without any of the
passes. `Journey.choices` filters the edges that lead on by one test, `Journey.agrees`, and falls back
on all of them as a forced walk does; `candidates_eq` says that the candidates are these edges by
descending probability, and nothing else.

The passes go through the edges in an order of their own: terminals first, then pair by pair. They
lose nothing and find nothing twice (`collect_perm`), because every edge has one vertex ahead and
every call belongs to one pair. Ordering by number brings back the order of creation, in which no two
edges have one number, so that there is nothing to drop (`inOrder_of_perm`).
-/

set_option autoImplicit false

namespace TxnPath

/-! ### Dropping neighbours that are alike -/

section Repetitions

variable {α : Type} {alike : α → α → Bool}

/-- The loop behind `List.eraseRepsBy` keeps the element at hand, and all that follow if no two of
them are alike. -/
theorem eraseRepsBy_loop {a : α} {rest kept : List α}
    (h : (a :: rest).Pairwise fun x y => alike x y = false) :
    List.eraseRepsBy.loop alike a rest kept = kept.reverse ++ a :: rest := by
  induction rest generalizing a kept with
  | nil => simp [List.eraseRepsBy.loop]
  | cons b rest ih =>
    obtain ⟨ha, hrest⟩ := List.pairwise_cons.mp h
    rw [List.eraseRepsBy.loop, ha b List.mem_cons_self]
    dsimp only
    rw [ih hrest, List.reverse_cons, List.append_assoc]
    rfl

/-- Nothing is dropped from a list in which no two elements are alike. -/
theorem eraseRepsBy_eq_self {xs : List α} (h : xs.Pairwise fun x y => alike x y = false) :
    xs.eraseRepsBy alike = xs := by
  cases xs with
  | nil => rfl
  | cons a rest => exact eraseRepsBy_loop h

end Repetitions

namespace Journey

variable {R : Type} {j : Journey R} {onward es : List (Edge R × Nat)} {e : Edge R × Nat}
  {pair : StatementId × Nat} {visited : List Nat} {v : Nat}

/-! ### Order by number -/

/-- Whatever order some numbered edges come in, ordering them by number gives the list of them that
ascends, and dropping neighbours of one number leaves it as it is. -/
theorem inOrder_of_perm {sorted : List (Edge R × Nat)} (hperm : es.Perm sorted)
    (hsorted : sorted.Pairwise fun a b => a.2 < b.2) : inOrder es = sorted := by
  have hascending : (stableSort (fun a b : Edge R × Nat => decide (a.2 ≤ b.2)) es).Pairwise
      fun a b => a.2 ≤ b.2 :=
    (pairwise_stableSort (fun a b => by simpa using Nat.le_total a.2 b.2)
      (fun a b c hab hbc => by simpa using Nat.le_trans (of_decide_eq_true hab) (of_decide_eq_true hbc))
      es).imp of_decide_eq_true
  have hall := (stableSort_perm (fun a b : Edge R × Nat => decide (a.2 ≤ b.2)) es).trans hperm
  -- Members that are not above each other have one number, and no number is listed twice.
  have hnodup : (sorted.map Prod.snd).Nodup := List.pairwise_map.mpr (hsorted.imp Nat.ne_of_lt)
  have heq : stableSort (fun a b : Edge R × Nat => decide (a.2 ≤ b.2)) es = sorted :=
    hall.eq_of_pairwise
      (fun a b ha hb hab hba => List.inj_on_of_nodup_map hnodup (hall.mem_iff.mp ha) hb
        (Nat.le_antisymm hab hba))
      hascending (hsorted.imp Nat.le_of_lt)
  rw [inOrder, heq]
  exact eraseRepsBy_eq_self (hsorted.imp fun hlt => by simpa using Nat.ne_of_lt hlt)

/-! ### The first look -/

/-- What the first look has found when it has seen some edges: those to terminals in the order they
were seen in, and the pair of every call ahead of one of them, once. -/
structure Survey.Covers (j : Journey R) (found : Survey R) (seen : List (Edge R × Nat)) : Prop where
  ends : found.ends = seen.filter fun e => (j.ahead? e).any VertexKind.isTerminal
  pairs : ∀ pair, pair ∈ found.pairs
    ↔ ∃ e ∈ seen, ∃ c, j.ahead? e = some (.query c) ∧ (c.statement, c.occurrence) = pair
  nodup : found.pairs.Nodup

/-- One edge more is covered after it was looked at. It is a terminal's, or it brings a pair that may
be known already, or it is of no use. -/
theorem Survey.Covers.look {found : Survey R} (h : found.Covers j es) (e : Edge R × Nat) :
    (found.look j e).Covers j (es ++ [e]) := by
  have hpairs : ∀ pair, (∃ e' ∈ es ++ [e], ∃ c, j.ahead? e' = some (.query c)
        ∧ (c.statement, c.occurrence) = pair)
      ↔ pair ∈ found.pairs
        ∨ ∃ c, j.ahead? e = some (.query c) ∧ (c.statement, c.occurrence) = pair := fun pair => by
    simp only [List.mem_append, List.mem_singleton, or_and_right, exists_or, exists_eq_left, h.pairs]
  rw [Survey.look]
  cases hahead : j.ahead? e with
  | none =>
    refine ⟨?_, fun pair => ?_, h.nodup⟩
    · rw [List.filter_append, ← h.ends]
      simp [hahead]
    · rw [hpairs]
      simp [hahead]
  | some kind =>
    cases kind with
    | start | commit | abort =>
      refine ⟨?_, fun pair => ?_, h.nodup⟩
      · rw [List.filter_append, ← h.ends]
        simp [hahead, VertexKind.isTerminal]
      · rw [hpairs]
        simp [hahead]
    | query c =>
      have hends : found.ends
          = (es ++ [e]).filter fun e => (j.ahead? e).any VertexKind.isTerminal := by
        rw [List.filter_append, ← h.ends]
        simp [hahead, VertexKind.isTerminal]
      dsimp only
      split
      -- The pair was met before and is not listed again.
      case isTrue hknown =>
        refine ⟨hends, fun pair => ?_, h.nodup⟩
        rw [hpairs]
        refine (or_iff_left_of_imp ?_).symm
        rintro ⟨c', hc', rfl⟩
        cases hahead.symm.trans hc'
        simpa using hknown
      -- The pair is appended, and stands there once.
      case isFalse hnew =>
        refine ⟨hends, fun pair => ?_, ?_⟩
        · rw [hpairs, List.mem_append, List.mem_singleton]
          refine or_congr_right ⟨fun heq => ⟨c, hahead, heq.symm⟩, ?_⟩
          rintro ⟨c', hc', rfl⟩
          cases hahead.symm.trans hc'
          rfl
        · refine h.nodup.append (List.nodup_singleton _) ?_
          simpa [List.disjoint_singleton] using hnew

/-- The first look covers all edges that lead on. -/
theorem covers_survey (j : Journey R) (onward : List (Edge R × Nat)) :
    (j.survey onward).Covers j onward := by
  suffices ∀ (found : Survey R) (seen rest : List (Edge R × Nat)), found.Covers j seen →
      (rest.foldl (Survey.look j) found).Covers j (seen ++ rest) by
    exact this ⟨[], []⟩ [] onward ⟨rfl, by simp, .nil⟩
  intro found seen rest h
  induction rest generalizing found seen with
  | nil => exact (List.append_nil seen).symm ▸ h
  | cons e rest ih =>
    have hnext := ih (found.look j e) (seen ++ [e]) (h.look e)
    rwa [List.append_assoc] at hnext

variable [Scalar R]

/-! ### Pair by pair -/

/-- The edges to calls of one statement and occurrence that touch what is expected. -/
def matching (j : Journey R) (onward : List (Edge R × Nat)) (pair : StatementId × Nat) :
    List (Edge R × Nat) :=
  (j.expected? pair.1 pair.2).elim [] fun touched => onward.filter (j.leadsTo pair touched)

/-- Going through the pairs appends what each of them brings. -/
theorem foldl_collectPair (pairs : List (StatementId × Nat)) (found : List (Edge R × Nat)) :
    pairs.foldl (j.collectPair onward) found = found ++ pairs.flatMap (j.matching onward) := by
  induction pairs generalizing found with
  | nil => simp
  | cons pair pairs ih =>
    have hstep : j.collectPair onward found pair = found ++ j.matching onward pair := by
      rw [collectPair, matching]
      cases j.expected? pair.1 pair.2 with
      | none => exact (List.append_nil found).symm
      | some touched => rfl
    rw [List.foldl_cons, ih, hstep, List.flatMap_cons, List.append_assoc]

/-- An edge is brought by the pair of the call ahead of it, if the call is the one expected. For a
pair that nothing is expected of, there is no such edge. -/
theorem mem_matching : e ∈ j.matching onward pair ↔ e ∈ onward ∧ ∃ c, j.ahead? e = some (.query c)
    ∧ (c.statement, c.occurrence) = pair
    ∧ j.expected? c.statement c.occurrence = some c.partitions := by
  have hleads : ∀ touched, j.leadsTo pair touched e = true ↔ ∃ c, j.ahead? e = some (.query c)
      ∧ (c.statement, c.occurrence) = pair ∧ c.partitions = touched := by
    intro touched
    rw [leadsTo]
    split
    case h_1 c hc => simp [hc, Prod.ext_iff, and_assoc]
    case h_2 hnone => exact ⟨nofun, fun ⟨c, hc, _⟩ => absurd hc (hnone c)⟩
  rw [matching]
  cases hexpected : j.expected? pair.1 pair.2 with
  | none =>
    refine ⟨nofun, ?_⟩
    rintro ⟨_, c, _, rfl, hc⟩
    cases hexpected.symm.trans hc
  -- The pair is looked up once, and every edge is compared with what was found.
  | some touched =>
    rw [Option.elim_some, List.mem_filter, hleads]
    refine and_congr_right fun _ => exists_congr fun c => and_congr_right fun _ => ?_
    refine and_congr_right ?_
    rintro rfl
    rw [hexpected, Option.some.injEq, eq_comm]

/-- No edge is brought by two pairs, and none twice by one. -/
theorem nodup_flatMap_matching {pairs : List (StatementId × Nat)} (honward : onward.Nodup)
    (hpairs : pairs.Nodup) : (pairs.flatMap (j.matching onward)).Nodup := by
  refine List.nodup_flatMap.mpr ⟨fun pair _ => ?_, hpairs.imp fun {pair pair'} hne => ?_⟩
  · rw [matching]
    cases j.expected? pair.1 pair.2 with
    | none => exact .nil
    | some touched => exact honward.filter _
  · -- The pair is that of the one call that is ahead of the edge.
    intro e he he'
    obtain ⟨_, c, hc, rfl, _⟩ := mem_matching.mp he
    obtain ⟨_, c', hc', rfl, _⟩ := mem_matching.mp he'
    cases hc.symm.trans hc'
    exact hne rfl

/-! ### What all passes find together -/

/-- Whether a vertex agrees with the arguments: a terminal does, and a call whose partitions are the
expected ones. -/
def agrees (j : Journey R) (v : Nat) : Bool :=
  match j.graph.vertices[v]? with
  | none => false
  | some x =>
    match x.kind with
    | .start => false
    | .commit | .abort => true
    | .query c => j.expected? c.statement c.occurrence == some c.partitions

/-- An edge agrees if it is one to a terminal or one that the pair of its call brings. -/
theorem agrees_target_iff : j.agrees e.1.target = true
    ↔ (j.ahead? e).any VertexKind.isTerminal = true
      ∨ ∃ c, j.ahead? e = some (.query c)
        ∧ j.expected? c.statement c.occurrence = some c.partitions := by
  rw [agrees, ahead?]
  cases hx : j.graph.vertices[e.1.target]? with
  | none => simp
  | some x =>
    rw [Option.map_some]
    cases hkind : x.kind <;> simp [VertexKind.isTerminal, hkind]

/-- The passes find the edges that agree, in an order of their own. Each is found once: terminals
come in the first pass, and a call is in the pass of its own pair and in no other. -/
theorem collect_perm (j : Journey R) (honward : onward.Nodup) :
    (j.collect onward).Perm (onward.filter fun e => j.agrees e.1.target) := by
  have hcovers := j.covers_survey onward
  rw [collect, foldl_collectPair]
  refine (List.perm_ext_iff_of_nodup ?_ (honward.filter _)).mpr fun e => ?_
  · -- An edge to a terminal has no call ahead of it.
    refine List.Nodup.append (hcovers.ends ▸ honward.filter _)
      (nodup_flatMap_matching honward hcovers.nodup) fun e hend hpair => ?_
    obtain ⟨pair, _, he⟩ := List.mem_flatMap.mp hpair
    obtain ⟨_, c, hc, _⟩ := mem_matching.mp he
    have hterminal := (List.mem_filter.mp (hcovers.ends ▸ hend)).2
    simp [hc, VertexKind.isTerminal] at hterminal
  -- An edge agrees if it leads to a terminal, or if its call is where its own pair is expected;
  -- that pair was met, since the edge leads on.
  · rw [List.mem_append, hcovers.ends, List.mem_filter, List.mem_filter, agrees_target_iff,
      and_or_left]
    refine or_congr_right ⟨fun hpair => ?_, fun ⟨he, c, hc, hexpected⟩ => ?_⟩
    · obtain ⟨pair, _, he⟩ := List.mem_flatMap.mp hpair
      obtain ⟨hmem, c, hc, _, hexpected⟩ := mem_matching.mp he
      exact ⟨hmem, c, hc, hexpected⟩
    · exact List.mem_flatMap.mpr ⟨(c.statement, c.occurrence),
        (hcovers.pairs _).mpr ⟨e, he, c, hc, rfl⟩, mem_matching.mpr ⟨he, c, hc, rfl, hexpected⟩⟩

/-! ### What there is to choose from -/

/-- The edges that a walk chooses from, in order of creation: those that agree with the arguments,
or, for want of those and if it is forced, all that lead on. Also whether they are taken for want of
better. -/
def choices (j : Journey R) (visited : List Nat) (v : Nat) : List (Edge R × Nat) × Bool :=
  let onward := j.onwardEdges visited v
  let agreeing := onward.filter fun e => j.agrees e.1.target
  if agreeing.isEmpty && j.force then (onward, !onward.isEmpty) else (agreeing, false)

omit [Scalar R] in
/-- The edges that lead on are listed by ascending number, in order of creation. -/
theorem pairwise_onwardEdges (j : Journey R) (visited : List Nat) (v : Nat) :
    (j.onwardEdges visited v).Pairwise fun a b => a.2 < b.2 :=
  (j.graph.pairwise_outgoing v).sublist List.filter_sublist

/-- The choices are among them, in the same order. -/
theorem choices_sublist (j : Journey R) (visited : List Nat) (v : Nat) :
    (j.choices visited v).1.Sublist (j.onwardEdges visited v) := by
  unfold choices
  dsimp only
  split
  · exact List.Sublist.refl _
  · exact List.filter_sublist

/-- What the passes of a walk find are its choices, by descending probability and in order of creation
among equally probable ones. -/
theorem candidates_eq (j : Journey R) (visited : List Nat) (v : Nat) :
    j.candidates visited v
      = ((Scalar.sortDescending (fun e : Edge R × Nat => e.1.probability)
            (j.choices visited v).1).map Prod.fst, (j.choices visited v).2) := by
  have hordered := j.pairwise_onwardEdges visited v
  have hnodup : (j.onwardEdges visited v).Nodup := hordered.imp fun hlt heq =>
    absurd (congrArg Prod.snd heq) (Nat.ne_of_lt hlt)
  have hperm := j.collect_perm hnodup
  have hagreeing : ((j.onwardEdges visited v).filter fun e => j.agrees e.1.target).Pairwise
      fun a b => a.2 < b.2 := hordered.sublist List.filter_sublist
  rw [candidates, choices, hperm.isEmpty_eq]
  split
  case isTrue hforced =>
    rw [hforced, Bool.true_and, inOrder_of_perm (.refl _) hordered]
  case isFalse hfound =>
    rw [Bool.eq_false_iff.mpr hfound, Bool.false_and, inOrder_of_perm hperm hagreeing]

omit [Scalar R] in
/-- The edges that lead on are edges of the graph from where the walk stands to where it has not
been. -/
theorem mem_onwardEdges {e : Edge R} {k : Nat} : (e, k) ∈ j.onwardEdges visited v
    ↔ j.graph.edges[k]? = some e ∧ e.source = v ∧ e.target ∉ visited := by
  rw [onwardEdges, Graph.outgoing, List.mem_filter, List.mem_filter, List.mem_zipIdx_iff_getElem?,
    Array.getElem?_toList]
  simp only [beq_iff_eq, Bool.not_eq_true', List.contains_eq_mem, decide_eq_false_iff_not, and_assoc]

/-- A walk takes edges of the graph that leave where it stands, and goes nowhere twice. -/
theorem candidates_spec {e : Edge R} (h : e ∈ (j.candidates visited v).1) :
    e ∈ j.graph.edges ∧ e.source = v ∧ e.target ∉ visited := by
  rw [candidates_eq] at h
  obtain ⟨⟨e, k⟩, hmem, rfl⟩ := List.mem_map.mp h
  obtain ⟨hk, hsource, hnew⟩ :=
    mem_onwardEdges.mp ((j.choices_sublist visited v).subset (mem_stableSort.mp hmem))
  exact ⟨Array.mem_of_getElem? hk, hsource, hnew⟩

/-- A walk finds no candidates exactly if there is nothing to choose from. -/
theorem candidates_eq_nil : (j.candidates visited v).1 = [] ↔ (j.choices visited v).1 = [] := by
  have hperm := stableSort_perm (fun a b : Edge R × Nat => !decide (a.1.probability < b.1.probability))
    (j.choices visited v).1
  rw [candidates_eq, List.map_eq_nil_iff, ← List.isEmpty_iff, ← List.isEmpty_iff]
  exact Bool.eq_iff_iff.mp hperm.isEmpty_eq

end Journey

end TxnPath
