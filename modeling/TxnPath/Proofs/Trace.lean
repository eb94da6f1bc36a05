import Mathlib.Data.List.SplitBy
import TxnPath.Trace

/-!
# `TxnPath.Proofs.Trace`: the batches of a trace

A batch ends where the next query has another batch number. `Trace.Runs` says of a list of lists
that it is a cut of the queries into maximal runs of one number, in terms of the runs alone. There
is one such cut and no other, which is `Trace.batches` (`runs_iff`). A pass over the positions that
compares every query with the first one of the open run makes the same cut: `runs_cut` says what it
keeps from one position to the next. There are as many runs as the number changes along the
queries, and one more (`Runs.length_eq`).
-/

set_option autoImplicit false

namespace TxnPath

namespace Trace

variable {queries rest run : List Query} {runs : List (List Query)}

/-- All queries of a list have one batch number. -/
def Uniform (run : List Query) : Prop := ∀ a ∈ run, ∀ b ∈ run, a.batch = b.batch

/-- No query of one list has the batch number of a query of another. -/
def Apart (run next : List Query) : Prop := ∀ a ∈ run, ∀ b ∈ next, a.batch ≠ b.batch

/-- A cut of a list of queries into its maximal runs of one batch number. A number that comes back
after another begins a new run. -/
structure Runs (queries : List Query) (runs : List (List Query)) : Prop where
  nonempty : ∀ run ∈ runs, run ≠ []
  /-- The runs make up the list, in its order. -/
  whole : runs.flatten = queries
  /-- All queries of a run have one number. -/
  uniform : ∀ run ∈ runs, Uniform run
  /-- The numbers of adjacent runs are different, so that no run could be longer. -/
  apart : runs.IsChain Apart

/-! ### Cutting between neighbours -/

/-- If neighbours in a run have one batch number, then all queries in it have. -/
theorem uniform_of_isChain (h : run.IsChain fun a b => a.batch = b.batch) : Uniform run := by
  have hmap : (run.map Query.batch).IsChain (· = ·) := (List.isChain_map Query.batch).mpr h
  intro a ha b hb
  exact hmap.pairwise.forall_of_forall (fun _ _ => rfl) (List.mem_map_of_mem ha)
    (List.mem_map_of_mem hb)

/-- Cutting wherever two neighbours differ makes the maximal runs, and there are no others. The list
function compares neighbours only, while the runs are about any two queries of a batch and about any
two of adjacent ones. -/
theorem runs_iff : Runs queries runs ↔ (queries.splitBy fun a b => a.batch == b.batch) = runs := by
  rw [List.splitBy_eq_iff]
  constructor
  · intro h
    refine ⟨h.whole.symm, fun hnil => h.nonempty [] hnil rfl, fun run hrun => ?_, ?_⟩
    · refine (List.pairwise_of_forall_mem_list fun a ha b hb => ?_).isChain
      exact beq_iff_eq.mpr (h.uniform run hrun a ha b hb)
    · refine h.apart.imp_of_mem_imp fun run next hrun hnext hapart => ?_
      refine ⟨h.nonempty run hrun, h.nonempty next hnext, beq_eq_false_iff_ne.mpr ?_⟩
      exact hapart _ (List.getLast_mem _) _ (List.head_mem _)
  · rintro ⟨rfl, hnil, hchain, hcut⟩
    have huniform : ∀ run ∈ runs, Uniform run := fun run hrun =>
      uniform_of_isChain ((hchain run hrun).imp fun _ _ => beq_iff_eq.mp)
    refine ⟨fun run hrun hempty => hnil (hempty ▸ hrun), rfl, huniform, ?_⟩
    -- Two runs are apart if the last query of the one differs from the first of the other.
    refine hcut.imp_of_mem_imp fun run next hrun hnext ⟨hne, hne', hends⟩ a ha b hb => ?_
    rw [huniform run hrun a ha _ (List.getLast_mem hne),
      huniform next hnext b hb _ (List.head_mem hne')]
    exact beq_eq_false_iff_ne.mp hends

/-- A cut begins with a run that the query behind it is not of, and goes on with a cut of what is
behind it. -/
theorem runs_cons_iff : Runs queries (run :: runs) ↔
    ∃ rest, queries = run ++ rest ∧ run ≠ [] ∧ Uniform run
      ∧ (∀ b ∈ rest.head?, ∀ a ∈ run, a.batch ≠ b.batch) ∧ Runs rest runs := by
  constructor
  · intro h
    obtain ⟨hne, hnonempty⟩ := List.forall_mem_cons.mp h.nonempty
    obtain ⟨hrun, huniform⟩ := List.forall_mem_cons.mp h.uniform
    obtain ⟨hnext, happart⟩ := List.isChain_cons.mp h.apart
    refine ⟨runs.flatten, h.whole.symm, hne, hrun, fun b hb a ha => ?_,
      hnonempty, rfl, huniform, happart⟩
    cases runs with
    | nil => cases hb
    | cons next runs =>
      refine hnext next rfl a ha b ?_
      rw [List.flatten_cons, List.head?_append_of_ne_nil _ (hnonempty next List.mem_cons_self)] at hb
      exact List.mem_of_mem_head? hb
  · rintro ⟨rest, rfl, hne, hrun, hbehind, h⟩
    refine ⟨List.forall_mem_cons.mpr ⟨hne, h.nonempty⟩, by rw [List.flatten_cons, h.whole],
      List.forall_mem_cons.mpr ⟨hrun, h.uniform⟩, List.isChain_cons.mpr ⟨?_, h.apart⟩⟩
    intro next hnext a ha b hb
    obtain ⟨runs, rfl⟩ := List.head?_eq_some_iff.mp hnext
    cases next with
    | nil => exact absurd rfl (h.nonempty [] List.mem_cons_self)
    | cons first next =>
      -- The first query behind the run speaks for the next run.
      have hfirst : rest.head? = some first := by rw [← h.whole]; rfl
      rw [h.uniform _ List.mem_cons_self b hb first List.mem_cons_self]
      exact hbehind first hfirst a ha

/-! ### Counting runs -/

/-- How often the batch number changes from one query to the next. -/
def changes : List Query → Nat
  | a :: b :: rest => (if a.batch = b.batch then 0 else 1) + changes (b :: rest)
  | _ => 0

/-- Along a run the number does not change, and behind it it does. So there is one change more than
in the rest, unless there is no rest. -/
theorem changes_append (hne : run ≠ []) (hrun : Uniform run)
    (hbehind : ∀ b ∈ rest.head?, ∀ a ∈ run, a.batch ≠ b.batch) :
    changes (run ++ rest) = if rest = [] then 0 else 1 + changes rest := by
  induction run with
  | nil => exact absurd rfl hne
  | cons a run ih =>
    -- The number changes only where the run ends, if there is something behind it.
    cases run with
    | nil =>
      cases rest with
      | nil => rfl
      | cons b rest =>
        have hab : a.batch ≠ b.batch := hbehind b rfl a List.mem_cons_self
        rw [if_neg (List.cons_ne_nil b rest), List.singleton_append, changes, if_neg hab]
    | cons a' run =>
      have haa' : a.batch = a'.batch :=
        hrun a List.mem_cons_self a' (List.mem_cons_of_mem _ List.mem_cons_self)
      rw [List.cons_append, List.cons_append, changes, if_pos haa', Nat.zero_add]
      exact ih (List.cons_ne_nil a' run)
        (fun x hx y hy => hrun x (List.mem_cons_of_mem _ hx) y (List.mem_cons_of_mem _ hy))
        (fun b hb x hx => hbehind b hb x (List.mem_cons_of_mem _ hx))

/-- There is one run more than there are changes. -/
theorem Runs.length_eq (h : Runs queries runs) :
    runs.length = if queries = [] then 0 else 1 + changes queries := by
  induction runs generalizing queries with
  | nil =>
    obtain rfl : queries = [] := h.whole.symm
    rfl
  | cons run runs ih =>
    obtain ⟨rest, rfl, hne, hrun, hbehind, hrest⟩ := runs_cons_iff.mp h
    rw [List.length_cons, ih hrest, if_neg (List.append_ne_nil_of_left_ne_nil hne rest),
      changes_append hne hrun hbehind, Nat.add_comm]

/-! ### Cutting in one pass -/

/-- The batch number at a position. -/
def batchAt (queries : List Query) (i : Nat) : Option Nat := queries[i]?.map Query.batch

/-- Cuts a list of queries in one pass over positions. The open run began at the first position that
is given; it ends before a query with another batch number, and where there are no more queries. -/
def cut (queries : List Query) : Nat → List Nat → List (List Query)
  | _, [] => []
  | start, i :: rest =>
    if i = queries.length ∨ batchAt queries i ≠ batchAt queries start
    then queries.extract start i :: cut queries i rest
    else cut queries start rest

/-- What the pass has in the open run has the number that the run began with. -/
theorem batch_of_mem_extract {start i : Nat}
    (hopen : ∀ j, start ≤ j → j < i → batchAt queries j = batchAt queries start) {a : Query}
    (ha : a ∈ queries.extract start i) : some a.batch = batchAt queries start := by
  obtain ⟨k, hk⟩ := List.mem_iff_getElem?.mp ha
  rw [List.extract_eq_take_drop, List.getElem?_take, List.getElem?_drop] at hk
  split at hk
  case isTrue hlt =>
    rw [← hopen (start + k) (Nat.le_add_right start k) (by omega), batchAt, hk]
    rfl
  case isFalse => cases hk

/-- From wherever the open run began, the pass cuts what is left into maximal runs, if all positions
up to the next one hold the number of the open run. -/
theorem runs_cut {start i m : Nat} (hlt : start < i) (hend : i + m = queries.length + 1)
    (hopen : ∀ j, start ≤ j → j < i → batchAt queries j = batchAt queries start)
    (hdone : m = 0 → start = queries.length) :
    Runs (queries.drop start) (cut queries start (List.range' i m)) := by
  induction m generalizing start i with
  | zero =>
    rw [hdone rfl, List.drop_length]
    exact ⟨nofun, rfl, nofun, .nil⟩
  | succ m ih =>
    rw [List.range'_succ, cut]
    split
    case isTrue hcut =>
      -- The run ends here, and the next one begins with nothing but its first position.
      have hrest : Runs (queries.drop i) (cut queries i (List.range' (i + 1) m)) :=
        ih (Nat.lt_succ_self i) (by omega)
          (fun j hj hji => congrArg (batchAt queries) (by omega)) (fun hm => by omega)
      have hnumber : ∀ a ∈ queries.extract start i, some a.batch = batchAt queries start :=
        fun a => batch_of_mem_extract hopen
      refine runs_cons_iff.mpr ⟨queries.drop i, ?_, ?_, fun a ha b hb => ?_, fun b hb a ha heq => ?_,
        hrest⟩
      · have hsplit := List.take_append_drop (i - start) (queries.drop start)
        rw [List.drop_drop, Nat.add_sub_cancel' (Nat.le_of_lt hlt)] at hsplit
        exact hsplit.symm
      · refine List.ne_nil_of_length_pos ?_
        rw [List.extract_eq_take_drop, List.length_take, List.length_drop]
        omega
      · exact Option.some.inj ((hnumber a ha).trans (hnumber b hb).symm)
      · rw [List.head?_drop] at hb
        rcases hcut with rfl | hcut
        · rw [List.getElem?_length] at hb
          cases hb
        · refine hcut ?_
          rw [← hnumber a ha, heq, batchAt, Option.mem_def.mp hb]
          rfl
    case isFalse hopen' =>
      -- The position joins the open run.
      obtain ⟨hmore, hsame⟩ := not_or.mp hopen'
      refine ih (Nat.lt_succ_of_lt hlt) (by omega) (fun j hj hji => ?_) (fun hm => by omega)
      rcases Nat.lt_succ_iff_lt_or_eq.mp hji with hji | rfl
      · exact hopen j hj hji
      · exact not_not.mp hsame

/-- The pass over all positions behind the first query, and the one behind the last, cuts where
neighbours differ. -/
theorem cut_eq (queries : List Query) :
    cut queries 0 (List.range' 1 queries.length) = queries.splitBy fun a b => a.batch == b.batch := by
  have hruns : Runs (queries.drop 0) (cut queries 0 (List.range' 1 queries.length)) := by
    refine runs_cut Nat.one_pos (Nat.add_comm 1 _) (fun j _ hj => ?_) fun hnone => hnone.symm
    rw [Nat.lt_one_iff.mp hj]
  exact (runs_iff.mp hruns).symm

/-- The batches of a trace are the maximal runs of its queries: none is empty, together they are the
queries in order, each has one batch number, and neighbours have different ones. No other lists are
such runs. The batch count is the number of runs, which is one more than the number of changes, and a
pass that keeps where the open run began finds them. -/
theorem batches_runs (t : Trace) :
    Runs t.queries t.batches
      ∧ (∀ runs, Runs t.queries runs → runs = t.batches ∧ runs.length = t.batchCount)
      ∧ t.batchCount = (if t.queries = [] then 0 else 1 + changes t.queries)
      ∧ cut t.queries 0 (List.range' 1 t.queries.length) = t.batches := by
  have hruns : Runs t.queries t.batches := runs_iff.mpr rfl
  refine ⟨hruns, fun runs h => ?_, hruns.length_eq, cut_eq t.queries⟩
  obtain rfl : t.batches = runs := runs_iff.mp h
  exact ⟨rfl, rfl⟩

end Trace

end TxnPath
