import Mathlib
import TxnPath.Proofs.Graph.Evolution
import TxnPath.Proofs.Scalar
import TxnPath.Proofs.Walk.Strides

/-!
# `TxnPath.Proofs.Walk.Greedy`: which edge a walk takes

The candidates of a walk are found by several passes over edges, and put in order by two sorts. This
module says what they are without either. An edge leads on if it goes from where the walk stands to a
vertex that it has not visited (`Journey.Onward`), and fits if it leads to COMMIT, to ABORT or to a call
that the arguments foretell (`Journey.Fits`). A walk chooses among the edges that fit, or for want of
those and if it is forced among all that lead on (`Journey.Options`).

`Journey.Greedy` is one turn in these terms: the edge taken is the most probable one and the oldest
among equally probable ones, and the confidence is multiplied by its part of the whole.
`Walker.traverse_greedy` says that a walk consists of such turns, and ends at COMMIT, at ABORT or
where there is nothing to choose from.

All this holds of doubles as well as of rationals (`Scalar.Ordered`), if no edge has a negative
probability or `NaN` for one (`Graph.Weighted`). In exact arithmetic edges never have, in graphs that
operations lead to (`Graph.Reached.weighted`). The order in which probabilities are added up makes a
difference to doubles, so that it is part of what a total is (`Graph.Totals`); to rationals it makes
none (`Journey.Greedy.exact`).
-/

set_option autoImplicit false

namespace TxnPath

variable {R : Type}

/-! ### Sorting numbered entries -/

section Sorting

variable {α : Type} [Scalar R] {key : α → R} {S : Set R}

/-- One numbered entry comes before another one: its key is at least as great, and if the other key is
at least as great as well, its number is smaller. -/
def Precedes (key : α → R) (a b : α × Nat) : Prop :=
  key b.1 ≤ key a.1 ∧ (key a.1 ≤ key b.1 → a.2 < b.2)

/-- Inserting an entry older than all others keeps entries in this order, because it is put in front of
the first one whose key is not above its own. -/
theorem pairwise_insertOrdered_precedes (hranks : Scalar.Ranks S) {a : α × Nat} {xs : List (α × Nat)}
    (hkeys : ∀ b ∈ a :: xs, key b.1 ∈ S) (hnew : ∀ b ∈ xs, a.2 < b.2)
    (h : xs.Pairwise (Precedes key)) :
    (insertOrdered (fun a b => !decide (key a.1 < key b.1)) a xs).Pairwise (Precedes key) := by
  induction xs with
  | nil => exact List.pairwise_singleton _ _
  | cons b rest ih =>
    obtain ⟨hb, hrest⟩ := List.pairwise_cons.mp h
    obtain ⟨hab, hnew'⟩ := List.forall_mem_cons.mp hnew
    obtain ⟨haS, hkeys'⟩ := List.forall_mem_cons.mp hkeys
    obtain ⟨hbS, hrestS⟩ := List.forall_mem_cons.mp hkeys'
    rw [insertOrdered]
    split
    · next hle =>
      -- The entry is put before one whose key is at most its own, and so before all later ones.
      have hle : key b.1 ≤ key a.1 := by
        rw [Bool.not_eq_true', decide_eq_false_iff_not, hranks.lt_iff _ haS _ hbS] at hle
        exact not_not.mp hle
      refine List.pairwise_cons.mpr ⟨fun c hc => ⟨?_, fun _ => hnew c hc⟩, h⟩
      rcases List.mem_cons.mp hc with rfl | hc
      · exact hle
      · exact hranks.trans _ (hrestS c hc) _ hbS _ haS (hb c hc).1 hle
    · next hlt =>
      have hlt : ¬ key b.1 ≤ key a.1 := by
        rw [Bool.not_eq_true', decide_eq_false_iff_not, not_not, hranks.lt_iff _ haS _ hbS] at hlt
        exact hlt
      refine List.pairwise_cons.mpr
        ⟨fun c hc => ?_, ih (List.forall_mem_cons.mpr ⟨haS, hrestS⟩) hnew' hrest⟩
      rcases List.mem_cons.mp ((insertOrdered_perm _ a rest).mem_iff.mp hc) with rfl | hc
      · exact ⟨(hranks.total _ haS _ hbS).resolve_right hlt, fun hle => absurd hle hlt⟩
      · exact hb c hc

/-- Entries in the order of their numbers are sorted by descending keys, and by ascending numbers
among equal keys. -/
theorem pairwise_sortDescending (hranks : Scalar.Ranks S) {xs : List (α × Nat)}
    (hkeys : ∀ b ∈ xs, key b.1 ∈ S) (h : xs.Pairwise fun a b => a.2 < b.2) :
    (Scalar.sortDescending (fun a => key a.1) xs).Pairwise (Precedes key) := by
  induction xs with
  | nil => exact List.Pairwise.nil
  | cons a rest ih =>
    obtain ⟨ha, hrest⟩ := List.pairwise_cons.mp h
    obtain ⟨haS, hrestS⟩ := List.forall_mem_cons.mp hkeys
    refine pairwise_insertOrdered_precedes hranks
      (List.forall_mem_cons.mpr ⟨haS, fun b hb => hrestS b (mem_stableSort.mp hb)⟩)
      (fun b hb => ha b (mem_stableSort.mp hb)) (ih hrestS hrest)

end Sorting

/-! ### What the arguments foretell -/

namespace Journey

section Arguments

variable [Scalar R] {j : Journey R} {s : Statement} {occurrence slot : Nat} {x : Value}

omit [Scalar R] in
/-- A mapping gives a value: its argument exists, and so does the element that it names, if it names
one. -/
def Resolves (j : Journey R) (m : Mapping R) (x : Value) : Prop :=
  ∃ argument, j.args[m.argument]? = some argument
    ∧ ((m.element = none ∧ x = argument)
      ∨ ∃ k items, m.element = some k ∧ argument.list? = some items ∧ items[k]? = some x)

/-- A parameter of a statement is fed by the first of its mappings that gives a value, in the order
of the policy. -/
def Feeds (j : Journey R) (s : Statement) (occurrence slot : Nat) (x : Value) : Prop :=
  ∃ before m after,
    j.policy.ordered (j.mappings.candidates j.procedure.id s.id occurrence slot)
        = before ++ m :: after
      ∧ (∀ m' ∈ before, ∀ y, ¬ j.Resolves m' y) ∧ j.Resolves m x

/-- The parameters of a statement as far as the arguments tell them. At least one is told. What is
not told is null, which the router is given in its place. -/
structure Tells (j : Journey R) (s : Statement) (occurrence : Nat) (params : List Value) : Prop where
  length : params.length = s.params.length
  entry : ∀ slot x, params[slot]? = some x →
    j.Feeds s occurrence slot x ∨ x = .null ∧ ∀ y, ¬ j.Feeds s occurrence slot y
  told : ∃ slot < s.params.length, ∃ x, j.Feeds s occurrence slot x

/-- The arguments foretell a call: its statement is one of the procedure, and the partitions that the
statement is routed to are those of the call. -/
def Foretells (j : Journey R) (c : Call) : Prop :=
  ∃ s params, j.procedure.statement? c.statement = some s ∧ j.Tells s c.occurrence params
    ∧ j.router.route j.procedure s params j.graph.base = .ok c.partitions

/-- A vertex fits the arguments: it ends the path, or it stands for a call that they foretell. -/
def Fits (j : Journey R) (v : Nat) : Prop :=
  j.graph.kind? v = some .commit ∨ j.graph.kind? v = some .abort
    ∨ ∃ c, j.graph.kind? v = some (.query c) ∧ j.Foretells c

omit [Scalar R] in
/-- The value of a mapping is found by reading the arguments of the transaction where the mapping
points to. -/
theorem resolve?_eq_some {m : Mapping R} : j.resolve? m = some x ↔ j.Resolves m x := by
  rw [resolve?, Option.bind_eq_some_iff]
  refine exists_congr fun argument => and_congr_right fun _ => ?_
  cases helement : m.element with
  | none => simp [eq_comm]
  | some k => simp [Option.bind_eq_some_iff]

/-- A slot is fed by the first mapping of its own that resolves. -/
theorem feed?_eq_some : j.feed? s occurrence slot = some x ↔ j.Feeds s occurrence slot x := by
  have hnone : ∀ m, j.resolve? m = none ↔ ∀ y, ¬ j.Resolves m y := by
    intro m
    simp only [← resolve?_eq_some, Option.eq_none_iff_forall_ne_some, ne_eq]
  rw [feed?, List.findSome?_eq_some_iff]
  simp only [Feeds, hnone, resolve?_eq_some]
  constructor
  · rintro ⟨before, m, after, hsplit, hm, hbefore⟩
    exact ⟨before, m, after, hsplit, hbefore, hm⟩
  · rintro ⟨before, m, after, hsplit, hbefore, hm⟩
    exact ⟨before, m, after, hsplit, hm, hbefore⟩

/-- A slot is not fed if no mapping feeds it. -/
theorem feed?_eq_none :
    j.feed? s occurrence slot = none ↔ ∀ x, ¬ j.Feeds s occurrence slot x := by
  simp only [← feed?_eq_some, Option.eq_none_iff_forall_ne_some, ne_eq]

/-- What stands for a parameter: its value if it is fed, and else no value. -/
theorem getD_feed? : (j.feed? s occurrence slot).getD .null = x
    ↔ j.Feeds s occurrence slot x ∨ x = .null ∧ ∀ y, ¬ j.Feeds s occurrence slot y := by
  rw [← feed?_eq_some, ← feed?_eq_none]
  cases j.feed? s occurrence slot with
  | none => simp [eq_comm]
  | some y => simp

/-- The parameters of a statement are told slot by slot, with nothing where a slot is not fed; if
none is, then nothing is told at all. -/
theorem params?_eq_some {params : List Value} :
    j.params? s occurrence = some params ↔ j.Tells s occurrence params := by
  have htold : ((List.range s.params.length).map (j.feed? s occurrence)).any Option.isSome = true
      ↔ ∃ slot < s.params.length, ∃ x, j.Feeds s occurrence slot x := by
    simp [List.any_map, Option.isSome_iff_exists, feed?_eq_some]
  rw [params?]
  split
  · next hany =>
    rw [Option.some.injEq, List.map_map]
    constructor
    · rintro rfl
      refine ⟨by simp, fun slot x hx => getD_feed?.mp ?_, htold.mp hany⟩
      obtain ⟨k, hk, hx⟩ := List.getElem?_map.symm.trans hx |> Option.map_eq_some_iff.mp
      obtain ⟨_, rfl⟩ := List.getElem?_eq_some_iff.mp hk
      simpa using hx
    -- A list is determined by its entries.
    · intro h
      refine List.ext_getElem (by simp [h.length]) fun slot hslot hslot' => ?_
      simpa using getD_feed?.mpr (h.entry slot _ (List.getElem?_eq_getElem hslot'))
  · next hnone => exact ⟨nofun, fun h => absurd (htold.mpr h.told) hnone⟩

/-- A call is foretold if the parameters that the arguments tell are routed to its partitions. -/
theorem expected?_eq_some {c : Call} :
    j.expected? c.statement c.occurrence = some c.partitions ↔ j.Foretells c := by
  simp only [expected?, Foretells, Option.bind_eq_some_iff, params?_eq_some]
  constructor
  · rintro ⟨s, hs, params, hparams, hroute⟩
    split at hroute
    · next touched htouched =>
      cases hroute
      exact ⟨s, params, hs, hparams, htouched⟩
    · cases hroute
  · rintro ⟨s, params, hs, hparams, hroute⟩
    exact ⟨s, hs, params, hparams, by rw [hroute]⟩

/-- The test for a vertex to agree is the property of fitting. -/
theorem agrees_iff {v : Nat} : j.agrees v = true ↔ j.Fits v := by
  rw [agrees, Fits, Graph.kind?]
  cases hx : j.graph.vertices[v]? with
  | none => simp
  | some x =>
    cases hkind : x.kind with
    | start => simp [hkind]
    | commit => simp [hkind]
    | abort => simp [hkind]
    | query c => simp [hkind, expected?_eq_some]

end Arguments

/-! ### What there is to choose from -/

section Options

variable [Scalar R] {j : Journey R} {visited : List Nat} {v k : Nat} {e : Edge R}

omit [Scalar R] in
/-- The edge of a number leads from a vertex to one that has not been visited. These are the edges
that a walk can choose from. -/
structure Onward (j : Journey R) (visited : List Nat) (v k : Nat) (e : Edge R) : Prop where
  edge : j.graph.edges[k]? = some e
  source : e.source = v
  unvisited : e.target ∉ visited

/-- The numbers of the edges that a walk chooses from: those of the edges that fit, or, for want of
those and if it is forced, those of all that lead on. -/
inductive Options (j : Journey R) (visited : List Nat) (v : Nat) (options : Finset Nat) :
    Bool → Prop where
  /-- Some edge fits, or there is nothing to choose from. -/
  | fitting (h : ∀ k, k ∈ options ↔ ∃ e, j.Onward visited v k e ∧ j.Fits e.target) :
    Options j visited v options false
  /-- No edge fits. -/
  | forced (hforce : j.force = true) (hnone : ∀ k e, j.Onward visited v k e → ¬ j.Fits e.target)
    (h : ∀ k, k ∈ options ↔ ∃ e, j.Onward visited v k e) : Options j visited v options true

omit [Scalar R] in
/-- The edges that lead on, with their numbers. -/
theorem mem_onwardEdges_iff : (e, k) ∈ j.onwardEdges visited v ↔ j.Onward visited v k e :=
  mem_onwardEdges.trans
    ⟨fun ⟨hedge, hsource, hunvisited⟩ => ⟨hedge, hsource, hunvisited⟩,
      fun h => ⟨h.edge, h.source, h.unvisited⟩⟩

/-- The candidates of a walk with their numbers. -/
def numbered (j : Journey R) (visited : List Nat) (v : Nat) : List (Edge R × Nat) :=
  Scalar.sortDescending (fun e : Edge R × Nat => e.1.probability) (j.choices visited v).1

/-- Putting the choices in order takes none away. -/
theorem mem_numbered : (e, k) ∈ j.numbered visited v ↔ (e, k) ∈ (j.choices visited v).1 :=
  mem_stableSort

/-- So the candidates in order lead on, like the choices. -/
theorem onward_of_mem_numbered (h : (e, k) ∈ j.numbered visited v) : j.Onward visited v k e :=
  mem_onwardEdges_iff.mp ((j.choices_sublist visited v).subset (mem_numbered.mp h))

/-- No edge is a candidate twice. -/
theorem nodup_numbered (j : Journey R) (visited : List Nat) (v : Nat) :
    ((j.numbered visited v).map Prod.snd).Nodup := by
  have hnodup : ((j.choices visited v).1.map Prod.snd).Nodup := List.pairwise_map.mpr
    (((j.pairwise_onwardEdges visited v).sublist (j.choices_sublist visited v)).imp Nat.ne_of_lt)
  exact ((stableSort_perm _ _).map Prod.snd).nodup_iff.mpr hnodup

/-- What a walk chooses from are the numbers of its candidates. There are two kinds of choices:
among edges that agree with the call, and, if none does and the walk is forced, among all that lead
on. -/
theorem numbered_options (j : Journey R) (visited : List Nat) (v : Nat)
    (hsome : (j.choices visited v).1 ≠ []) :
    j.Options visited v ((j.numbered visited v).map Prod.snd).toFinset (j.choices visited v).2 := by
  have hmem : ∀ k, k ∈ ((j.numbered visited v).map Prod.snd).toFinset
      ↔ ∃ e, (e, k) ∈ (j.choices visited v).1 := by
    intro k
    simp [← mem_numbered]
  unfold choices at hsome hmem ⊢
  dsimp only at hsome hmem ⊢
  split at hsome
  · next hforced =>
    obtain ⟨hnone, hforce⟩ := Bool.and_eq_true_iff.mp hforced
    rw [if_pos hforced] at hmem ⊢
    have hsome' : (j.onwardEdges visited v).isEmpty = false := List.isEmpty_eq_false_iff.mpr hsome
    simp only [hsome', Bool.not_false]
    refine .forced hforce (fun k e hon hfits => ?_) fun k => ?_
    -- An edge that fits would have been among the candidates of the first kind, of which there are
    -- none.
    · have hfit : (e, k) ∈ (j.onwardEdges visited v).filter fun e => j.agrees e.1.target :=
        List.mem_filter.mpr ⟨mem_onwardEdges_iff.mpr hon, agrees_iff.mpr hfits⟩
      rw [List.isEmpty_iff.mp hnone] at hfit
      exact absurd hfit List.not_mem_nil
    · rw [hmem]
      exact exists_congr fun e => mem_onwardEdges_iff
  · next hnot =>
    rw [if_neg hnot] at hmem ⊢
    refine .fitting fun k => ?_
    rw [hmem]
    exact exists_congr fun e => by rw [List.mem_filter, mem_onwardEdges_iff, agrees_iff]

/-- Where a walk has no candidates there is nothing to choose from. Without force nothing fits, and
with force there is not even an edge that leads on. -/
theorem candidates_eq_nil_options (hnone : (j.candidates visited v).1 = []) :
    ∀ k e, j.Onward visited v k e → ¬ j.Fits e.target ∧ j.force = false := by
  intro k e hon
  rw [candidates_eq_nil] at hnone
  unfold choices at hnone
  dsimp only at hnone
  split at hnone
  · dsimp only at hnone
    exact absurd (mem_onwardEdges_iff.mpr hon) (hnone ▸ List.not_mem_nil)
  · next hnot =>
    dsimp only at hnone
    refine ⟨fun hfits => ?_, by simpa [hnone] using hnot⟩
    have hmem : (e, k) ∈ (j.onwardEdges visited v).filter fun e => j.agrees e.1.target :=
      List.mem_filter.mpr ⟨mem_onwardEdges_iff.mpr hon, agrees_iff.mpr hfits⟩
    rw [hnone] at hmem
    exact absurd hmem List.not_mem_nil

end Options

end Journey

/-! ### Probabilities of edges -/

namespace Graph

/-- No edge has a negative probability, or one that is not a number. -/
def Weighted [Scalar R] (g : Graph R) : Prop := ∀ e ∈ g.edges, 0 ≤ e.probability

section Exact

variable {g g' : Graph Rat} {links : List (Nat × Nat)}

/-- Weights are quotients of counts, which are not negative. -/
theorem weighted_weighEdges (g : Graph Rat) : g.weighEdges.Weighted := by
  intro e he
  obtain ⟨e', _, rfl⟩ := Array.mem_map.mp he
  dsimp only
  split
  · exact div_nonneg (Nat.cast_nonneg _) (Nat.cast_nonneg _)
  · exact le_rfl

/-- Writing tables leaves the weights of edges alone. -/
theorem Weighted.same (h : g.Weighted) (hsame : SameButTables g g') : g'.Weighted := by
  rw [Weighted, hsame.edges]
  exact h

/-- A step that is counted creates an edge without a probability, if it creates one. Otherwise it
counts at an edge that there is, and leaves its probability alone. -/
theorem Weighted.link (h : g.Weighted) (u v : Nat) : (g.link u v).1.Weighted := by
  have hensure : (g.ensureEdge u v).1.Weighted := by
    rcases ensureEdge_cases g u v with ⟨i, e, hensure, _⟩ | ⟨_, hensure⟩
    · rw [hensure]
      exact h
    · rw [hensure]
      intro e he
      rcases Array.mem_push.mp he with hold | rfl
      · exact h e hold
      · exact le_rfl
  intro e he
  obtain ⟨k, hk⟩ := Array.mem_iff_getElem?.mp he
  rw [edges_link, Array.getElem?_modify] at hk
  split at hk
  · obtain ⟨e', he', rfl⟩ := Option.map_eq_some_iff.mp hk
    exact hensure e' (Array.mem_of_getElem? he')
  · exact hensure e (Array.mem_of_getElem? hk)

/-- An edge that is recorded for the first time has weight zero, until the next recomputation. -/
theorem Weighted.recording (h : g.Weighted) (hrecording : Recording g links g') : g'.Weighted := by
  induction hrecording with
  | refl => exact h
  | @call g' _ c _ ih =>
    have hsame : (g'.ensureCall c).1.edges = g'.edges := by
      rw [ensureCall]
      split <;> rfl
    rw [Weighted, hsame]
    exact ih
  | time _ _ _ ih => exact ih
  | link _ _ _ ih => exact ih.link _ _
  | txn _ ih => exact ih

/-- In graphs that operations lead to no edge has a negative probability. Probabilities come from
deriving only, where they are shares of hits, or are zero for new edges. -/
theorem Reached.weighted (h : g.Reached) : g.Weighted := by
  induction h with
  | fresh => exact fun e he => absurd he (Array.not_mem_empty e)
  | loaded hload =>
    obtain ⟨p, s, _, _, hformed, hderive⟩ := GraphRecord.load_ok hload
    exact (weighted_weighEdges _).same
      ((hformed.tidy p.id).initialized.derive_same hderive).2
  | edited hreached hrun ih =>
    obtain ⟨s, htidy⟩ := hreached.tidy
    rcases Edit.run_cases htidy.initialized hrun with ⟨_, hrecording, _⟩ | ⟨_, rfl⟩ | hsame
      | ⟨_, hsame⟩
    · exact ih.recording hrecording
    · intro e he
      obtain ⟨e', he', rfl⟩ := Array.mem_map.mp he
      exact ih e' he'
    · exact (weighted_weighEdges _).same hsame
    · exact (weighted_weighEdges _).same hsame

end Exact

variable [Scalar R]

/-- The probability of the edge of a number. -/
def probabilityAt (g : Graph R) (k : Nat) : R := (g.edges[k]?.map Edge.probability).getD 0

/-- A total of the probabilities of some edges: the edges are taken from the most probable one to the
least probable one, older ones first among equally probable ones, and their probabilities added up in
this order. -/
def Totals (g : Graph R) (options : Finset Nat) (total : R) : Prop :=
  ∃ order : List Nat, order.Nodup ∧ order.toFinset = options
    ∧ order.Pairwise (fun a b => g.probabilityAt b ≤ g.probabilityAt a
        ∧ (g.probabilityAt a ≤ g.probabilityAt b → a < b))
    ∧ total = Scalar.sum (order.map g.probabilityAt)

end Graph

/-! ### Turns -/

namespace Journey

section Turns

variable [Scalar R] {j : Journey R} {w w' : Walker R} {visited : List Nat} {v : Nat}

/-- One turn of a walk: from a vertex, the edge of a number is taken out of some options. -/
structure Greedy (j : Journey R) (w w' : Walker R) (v k : Nat) (e : Edge R)
    (options : Finset Nat) (forced : Bool) : Prop where
  /-- The walk stands at a vertex where paths do not end. -/
  stands : w.visited.getLast? = some v
  inner : j.graph.isTerminal v = false
  /-- It has something to choose from. -/
  choice : j.Options w.visited v options forced
  edge : j.graph.edges[k]? = some e
  taken : k ∈ options
  /-- No other edge is more probable, and none that is as probable is older. -/
  best : ∀ i ∈ options, ∀ e', j.graph.edges[i]? = some e' →
    e'.probability ≤ e.probability ∧ (e.probability ≤ e'.probability → k ≤ i)
  visited : w'.visited = w.visited ++ [e.target]
  /-- A vertex that is reached for want of better is noted. -/
  noted : w'.forced = w.forced ++ if forced then [e.target] else []
  /-- The confidence is multiplied by the part that the edge has of the whole, or by an equal part
  where the whole is zero and there is nothing to part. -/
  confidence : ∃ total, j.graph.Totals options total
    ∧ w'.confidence = w.confidence *
      (if 0 < total then e.probability / total else Scalar.ratio 1 options.card)
    ∧ (0 < total ∨ 0 ≤ total ∧ total ≤ 0)

/-- The candidates are edges of the graph, under their own numbers. -/
theorem probabilityAt_of_mem_numbered {e : Edge R} {k : Nat} (h : (e, k) ∈ j.numbered visited v) :
    j.graph.probabilityAt k = e.probability := by
  rw [Graph.probabilityAt, (onward_of_mem_numbered h).edge]
  rfl

/-- The probabilities of candidates, looked up by number. -/
theorem map_probability_candidates (j : Journey R) (visited : List Nat) (v : Nat) :
    ((j.candidates visited v).1.map Edge.probability)
      = ((j.numbered visited v).map Prod.snd).map j.graph.probabilityAt := by
  rw [candidates_eq, List.map_map, List.map_map]
  exact List.map_congr_left fun e he => (probabilityAt_of_mem_numbered he).symm

section Ordered

variable [Scalar.Ordered R]

/-- Candidates come in the order of their probabilities, and older ones first among equals. -/
theorem pairwise_numbered (hweighted : j.graph.Weighted) (visited : List Nat) (v : Nat) :
    (j.numbered visited v).Pairwise (Precedes Edge.probability) := by
  refine pairwise_sortDescending Scalar.Ordered.ranks (fun ⟨e, k⟩ he => ?_)
    ((j.pairwise_onwardEdges visited v).sublist (j.choices_sublist visited v))
  exact hweighted e
    (Array.mem_of_getElem? (onward_of_mem_numbered (mem_numbered.mpr he)).edge)

/-- What a walk divides by is the total of its options, in the order in which it has sorted them. -/
theorem totals_candidates (hweighted : j.graph.Weighted) (visited : List Nat) (v : Nat) :
    j.graph.Totals ((j.numbered visited v).map Prod.snd).toFinset
      (Scalar.sum ((j.candidates visited v).1.map Edge.probability)) := by
  refine ⟨_, j.nodup_numbered visited v, rfl, List.pairwise_map.mpr ?_,
    congrArg Scalar.sum (j.map_probability_candidates visited v)⟩
  refine (pairwise_numbered hweighted visited v).imp_of_mem fun {a b} ha hb hab => ?_
  rw [probabilityAt_of_mem_numbered ha, probabilityAt_of_mem_numbered hb]
  exact hab

/-- What a walk divides by is positive, or else zero. -/
theorem total_candidates (hweighted : j.graph.Weighted) (visited : List Nat) (v : Nat) :
    0 < Scalar.sum ((j.candidates visited v).1.map Edge.probability)
      ∨ 0 ≤ Scalar.sum ((j.candidates visited v).1.map Edge.probability)
        ∧ Scalar.sum ((j.candidates visited v).1.map Edge.probability) ≤ 0 := by
  have hnonneg : 0 ≤ Scalar.sum ((j.candidates visited v).1.map Edge.probability) :=
    Scalar.sum_nonneg (List.forall_mem_map.mpr fun e he => hweighted e (candidates_spec he).1)
  exact (em _).imp_right fun hnot => ⟨hnonneg, Scalar.Ordered.le_zero hnonneg hnot⟩

/-- Every turn of a walk is greedy. The first of its candidates is the edge that it takes, and the
candidates are the options with their numbers. -/
theorem Strides.greedy (h : j.Strides w w') (hweighted : j.graph.Weighted) :
    ∃ v k e options forced, j.Greedy w w' v k e options forced := by
  obtain ⟨v, chosen, others, forced, hlast, hinner, hchoice, hvisit⟩ := h
  have hsome : (j.choices w.visited v).1 ≠ [] := fun hnil => by
    have hnone := candidates_eq_nil.mpr hnil
    rw [hchoice] at hnone
    cases hnone
  have hoptions := j.numbered_options w.visited v hsome
  have hpairwise := pairwise_numbered hweighted w.visited v
  have htotals := totals_candidates hweighted w.visited v
  have htotal := total_candidates hweighted w.visited v
  have hcard : ((j.numbered w.visited v).map Prod.snd).toFinset.card
      = (j.candidates w.visited v).1.length := by
    rw [List.toFinset_card_of_nodup (j.nodup_numbered w.visited v), candidates_eq, numbered]
    simp
  have hmap := candidates_eq j w.visited v
  rw [← numbered] at hmap
  have honward : ∀ e k, (e, k) ∈ j.numbered w.visited v → j.Onward w.visited v k e :=
    fun _ _ => onward_of_mem_numbered
  rw [hchoice] at hmap htotals htotal hcard
  obtain ⟨hmap, hforced⟩ := Prod.mk.inj hmap
  rw [← hforced] at hoptions
  generalize j.numbered w.visited v = es at *
  cases es with
  | nil => cases hmap
  | cons first rest =>
    obtain ⟨e, k⟩ := first
    obtain ⟨rfl, rfl⟩ := List.cons.inj hmap
    obtain ⟨hvisited, hconfidence, _, hnoted⟩ := Walker.visit_frame hvisit
    have hbest := (List.pairwise_cons.mp hpairwise).1
    refine ⟨v, k, chosen, _, forced, hlast, hinner, hoptions,
      (honward chosen k List.mem_cons_self).edge, by simp, ?_, hvisited, ?_, _, htotals, ?_, htotal⟩
    -- The candidates are ordered by descending probability, and by number among equals, so that the
    -- first is the one to take.
    · intro i hi e' he'
      obtain ⟨⟨e'', i⟩, hmem, rfl⟩ := List.mem_map.mp (List.mem_toFinset.mp hi)
      obtain rfl := Option.some.inj ((honward e'' i hmem).edge.symm.trans he')
      rcases List.mem_cons.mp hmem with heq | hrest
      · obtain ⟨rfl, rfl⟩ := Prod.mk.inj heq
        exact ⟨Scalar.Ordered.ranks.refl
          (hweighted _ (Array.mem_of_getElem? he')), fun _ => le_rfl⟩
      · obtain ⟨hle, hlt⟩ := hbest _ hrest
        exact ⟨hle, fun hge => (hlt hge).le⟩
    -- The turn is noted as forced if the candidates did not fit.
    · rw [hnoted, Walker.choose]
      split <;> simp
    · rw [hconfidence, hcard]
      rfl

end Ordered

end Turns

/-- In exact arithmetic a total does not depend on an order, and is what the probabilities of the
options add up to. The confidence is multiplied by the part of the edge, or by an equal part where
they add up to nothing. -/
theorem Greedy.exact {j : Journey Rat} {w w' : Walker Rat} {v k : Nat} {e : Edge Rat}
    {options : Finset Nat} {forced : Bool} (h : j.Greedy w w' v k e options forced) :
    w'.confidence = w.confidence *
      if ∑ i ∈ options, j.graph.probabilityAt i = 0 then 1 / (options.card : Rat)
      else e.probability / ∑ i ∈ options, j.graph.probabilityAt i := by
  obtain ⟨total, ⟨order, hnodup, rfl, _, htotal⟩, hconfidence, hwhole⟩ := h.confidence
  have hsum : ∑ i ∈ order.toFinset, j.graph.probabilityAt i = total := by
    rw [List.sum_toFinset _ hnodup, htotal]
    exact List.sum_eq_foldl
  rw [hconfidence, hsum]
  congr 1
  rcases hwhole with hpositive | ⟨hle, hge⟩
  · rw [if_pos hpositive, if_neg hpositive.ne']
  · rw [if_neg (not_lt.mpr hge), if_pos (le_antisymm hge hle)]
    rfl

section Ends

variable [Scalar R] {j : Journey R}

/-- Where a walk that is on its way finds no candidates, no edge fits, and no edge leads on if it is
forced. -/
def Stuck (j : Journey R) (visited : List Nat) (v : Nat) : Prop :=
  ∀ k e, j.Onward visited v k e → ¬ j.Fits e.target ∧ j.force = false

end Ends

end Journey

/-- A visit that gives a result is of a vertex that is there. -/
theorem Walker.lt_size_of_visit {g : Graph R} [Scalar R] {w w' : Walker R} {v : Nat}
    (h : w.visit g v = .ok w') : v < g.vertices.size := by
  rw [visit] at h
  split at h
  · cases h
  · next hx => exact (Array.getElem?_eq_some_iff.mp hx).1

/-- A walk is greedy. A walk over a graph that operations have led to visits its origin and takes
greedy turns. It is settled where paths end or where there is nothing to choose from.

This holds of doubles as well as of exact numbers. No edge may have a negative probability, which in
exact arithmetic is so in every graph that operations lead to (`Graph.Reached.weighted`). -/
theorem Walker.traverse_greedy [Scalar R] [Scalar.Ordered R] {j : Journey R} {w w' : Walker R}
    {origin : Nat} (hreached : j.graph.Reached) (hweighted : j.graph.Weighted) (hw : w.Rested)
    (hrun : w.traverse j origin = .ok w') :
    ∃ first last start, (w.setOut j origin).visit j.graph origin = .ok first
      ∧ Relation.ReflTransGen
        (fun w w' => ∃ v k e options forced, j.Greedy w w' v k e options forced) first last
      ∧ w' = last.settle j.graph start j.minHitsForAbort
      ∧ ∃ v, last.visited.getLast? = some v
        ∧ (j.graph.isTerminal v = true ∨ j.Stuck last.visited v) := by
  obtain ⟨s, htidy⟩ := hreached.tidy
  have hinit := htidy.initialized
  obtain ⟨start, htraverse⟩ := traverse_eq (v := origin) hinit hw.idle
  obtain ⟨first, hvisit, hfollow⟩ := Outcome.bind_ok (htraverse.symm.trans hrun)
  obtain ⟨last, hlast, rfl⟩ := Outcome.map_ok hfollow
  have hfirst : first.visited = [origin] := by
    rw [(visit_frame hvisit).1, show (w.setOut j origin).visited = [] from hw.unvisited]
    rfl
  have hturns := Journey.follow_strides (hfirst ▸ rfl) hlast
  refine ⟨first, last, start, hvisit,
    Relation.ReflTransGen.mono (fun _ _ (hturn : j.Strides _ _) => hturn.greedy hweighted)
      first last hturns, rfl, ?_⟩
  -- The turns stop where the itinerary ends.
  have hpath : last.visited = j.itinerary origin := by
    have hsettled := traverse_visited hinit hw hrun
    exact hsettled
  have horigin : origin < j.graph.vertices.size := lt_size_of_visit hvisit
  obtain ⟨_, v, hv, hend⟩ := Journey.walked_itinerary hinit horigin
  rw [hpath]
  refine ⟨v, hv, ?_⟩
  rw [Journey.next?_eq_none hinit, ← or_assoc, ← Graph.isTerminal_iff hinit] at hend
  exact hend.imp_right Journey.candidates_eq_nil_options

/-! ### A walk to the less probable call -/

namespace Walker

/-- A procedure that looks up a key. -/
def lookup : Procedure :=
  ⟨0, "lookup", [⟨"key", false⟩], [⟨0, "get", .select, [], [none]⟩], false, false, none⟩

/-- What is stored of three transactions: two found their key at partition 0, and one at
partition 1. -/
def lookups : GraphRecord :=
  ⟨"lookup", 0, 0, 2, 3, [⟨.start, 3, 0, 0⟩, ⟨.commit, 3, 0, 0⟩, ⟨.abort, 0, 0, 0⟩,
    ⟨.query ⟨0, 0, .singleton 0, .select⟩, 2, 0, 0⟩,
    ⟨.query ⟨0, 0, .singleton 1, .select⟩, 1, 0, 0⟩],
    [⟨0, 3, 2⟩, ⟨0, 4, 1⟩, ⟨3, 1, 2⟩, ⟨4, 1, 1⟩]⟩

/-- A call with key 1, where even keys are kept at partition 0 and odd ones at partition 1. -/
def lookupOne (g : Graph Rat) : Journey Rat where
  graph := g
  procedure := lookup
  mappings := .ofList [⟨0, 0, 0, 0, 0, none, 1⟩]
  router := ⟨2, fun _ _ => .ok 0, fun _ _ params _ => match params with
    | .int key :: _ => .ok (.singleton (key.toNat % 2))
    | _ => .ok (.singleton 0)⟩
  args := [.int 1]
  policy := .firstFound
  force := false
  minHitsForAbort := 1

/-- The walk goes to the call at partition 1, which one transaction out of three made. It is the only
one that the key foretells. -/
theorem traverse_greedy_lookup :
    ∃ (g : Graph Rat) (first last w' : Walker Rat) (start : Vertex Rat),
      g.Reached ∧ (new : Walker Rat).traverse (lookupOne g) 0 = .ok w'
        ∧ w'.visited = [0, 4, 1] ∧ w' = last.settle g start 1
        ∧ Relation.ReflTransGen
          (fun w w' => ∃ v k e options forced, (lookupOne g).Greedy w w' v k e options forced)
          first last := by
  have hwalk : ((lookups.load ⟨2, [], [lookup]⟩ :
      Except Fault (Except Error (Graph Rat))).toOption.bind Except.toOption).bind (fun g =>
        (new.traverse (lookupOne g) 0).toOption.map Walker.visited) = some [0, 4, 1] := by
    decide +kernel
  obtain ⟨g, hload, hwalk⟩ := Option.bind_eq_some_iff.mp hwalk
  obtain ⟨loaded, hload, hok⟩ := Option.bind_eq_some_iff.mp hload
  obtain ⟨w', hrun, hvisited⟩ := Option.map_eq_some_iff.mp hwalk
  -- The graph was loaded and the walk evaluated; both are now facts about the walk in question.
  have hload := Outcome.of_toOption hload
  rw [Outcome.of_toOption hok] at hload
  have hrun := Outcome.of_toOption hrun
  obtain ⟨first, last, start, _, hturns, hsettled, _⟩ :=
    traverse_greedy (.loaded hload) (Graph.Reached.loaded hload).weighted rested_new hrun
  exact ⟨g, first, last, w', start, .loaded hload, hrun, hvisited, hsettled, hturns⟩

end Walker

end TxnPath
