import TxnPath.Graph.ReverseOrder

/-!
# `TxnPath.Proofs.Graph.Search`: the search cuts every cycle

`Digraph.Descends` says of a list of vertices that every edge leads from its source to a
vertex further down. A depth-first search lists the vertices that it has finished, the
latest first, and this list descends once the edges are left out that led to an open
vertex. The argument has two parts:

* `Search.Sound` is the invariant of the search: of an open vertex, every edge that was
  followed is skipped or leads to a finished vertex or to one opened later
  (`Search.Followed`). Hence when a vertex is finished all its edges are settled.
* `Search.potential` counts the work that is left, and every step does some of it, so
  that the search ends (`run_done`).

`complete_descends` puts both together: with the edges left out that were skipped, all
vertices are in a list that descends.
-/

set_option autoImplicit false

namespace TxnPath

/-- Every edge of a listed vertex leads to one further down the list. -/
def Digraph.Descends (d : Digraph) : List Nat → Prop
  | [] => True
  | v :: rest => (∀ a ∈ d.arcs, a.source = v → a.target ∈ rest) ∧ d.Descends rest

/-- The edges that are left when some are left out. -/
theorem Digraph.mem_without {d : Digraph} {skipped : List Nat} {a : Arc} :
    a ∈ (d.without skipped).arcs ↔ a ∈ d.arcs ∧ a.id ∉ skipped := by
  simp [without]

/-- Leaving out more edges keeps a list descending. -/
theorem Digraph.Descends.without_mono {d : Digraph} {skipped skipped' l : List Nat}
    (hsub : ∀ i ∈ skipped, i ∈ skipped') (h : (d.without skipped).Descends l) :
    (d.without skipped').Descends l := by
  induction l with
  | nil => trivial
  | cons v rest ih =>
    refine ⟨fun a ha hsource => h.1 a ?_ hsource, ih h.2⟩
    rw [mem_without] at ha ⊢
    exact ⟨ha.1, fun hskipped => ha.2 (hsub a.id hskipped)⟩

namespace Search

variable {d : Digraph} {s : Search}

/-- The edges that were followed from open vertices: each of them is skipped, or leads to
a finished vertex, or to one that was opened later. Innermost vertices come first; `above`
lists the vertices opened later than those given. -/
def Followed (d : Digraph) (skipped finished : List Nat) :
    List Nat → List (Nat × List Arc) → Prop
  | _, [] => True
  | above, (v, more) :: below =>
    (∀ a ∈ d.arcs, a.source = v →
        a ∈ more ∨ a.id ∈ skipped ∨ a.target ∈ finished ∨ a.target ∈ above)
      ∧ Followed d skipped finished (v :: above) below

/-- What was followed stays so while more edges are skipped and more vertices visited. It is by
induction on the stack, for whatever is open above. -/
theorem Followed.mono {skipped skipped' finished finished' above above' : List Nat}
    {stack : List (Nat × List Arc)} (hskipped : ∀ i ∈ skipped, i ∈ skipped')
    (hvisited : ∀ v, v ∈ finished ∨ v ∈ above → v ∈ finished' ∨ v ∈ above')
    (h : Followed d skipped finished above stack) :
    Followed d skipped' finished' above' stack := by
  induction stack generalizing above above' with
  | nil => trivial
  | cons e below ih =>
    obtain ⟨v, more⟩ := e
    refine ⟨fun a ha hsource => ?_, ih (fun u hu => ?_) h.2⟩
    -- Each edge that was followed is still accounted for in the same way: to follow, skipped, or
    -- led to a vertex that was visited.
    · rcases h.1 a ha hsource with hmore | hskip | hvisit
      · exact .inl hmore
      · exact .inr (.inl (hskipped _ hskip))
      · exact .inr (.inr (hvisited _ hvisit))
    · rcases hu with hu | hu
      · rcases hvisited u (.inl hu) with h' | h'
        · exact .inl h'
        · exact .inr (List.mem_cons_of_mem _ h')
      · rcases List.mem_cons.mp hu with rfl | hu
        · exact .inr List.mem_cons_self
        · rcases hvisited u (.inr hu) with h' | h'
          · exact .inl h'
          · exact .inr (List.mem_cons_of_mem _ h')

/-- The vertices that the search has come to, innermost open ones first. -/
def visited (s : Search) : List Nat := s.stack.map Prod.fst ++ s.finished

/-- The invariant of the search. It says of finished vertices what the result should be of all, and
of open ones what is still to be done at them. -/
structure Sound (d : Digraph) (s : Search) : Prop where
  /-- No vertex is visited twice, so that the search comes to an end. -/
  nodup : s.visited.Nodup
  bounded : ∀ v ∈ s.visited, v < d.size
  /-- At every open vertex, the edges that are not on its list have been dealt with. -/
  followed : Followed d s.skipped s.finished [] s.stack
  /-- Edges between finished vertices lead to those finished earlier, unless they are skipped. -/
  descends : (d.without s.skipped).Descends s.finished
  roots : ∀ v ∈ s.roots, v < d.size
  /-- What is still to be followed are edges of the graph. -/
  arcs : ∀ e ∈ s.stack, ∀ a ∈ e.2, a ∈ d.arcs

/-- The open vertices are those on the stack. -/
theorem isOpen_iff {v : Nat} : s.isOpen v = true ↔ v ∈ s.stack.map Prod.fst := by
  simp [isOpen]

/-- The edges of a vertex are those that it is the source of. -/
theorem mem_outgoing {v : Nat} {a : Arc} : a ∈ d.outgoing v ↔ a ∈ d.arcs ∧ a.source = v := by
  simp [Digraph.outgoing]

/-- A vertex that was not visited is put on the stack with all its edges to follow. Nothing has been
followed there yet, so that the invariant asks nothing new. -/
theorem Sound.open {v : Nat} (h : Sound d s) (hv : v < d.size) (hnew : v ∉ s.visited) :
    Sound d { s with stack := (v, d.outgoing v) :: s.stack } where
  nodup := List.nodup_cons.mpr ⟨hnew, h.nodup⟩
  bounded := fun u hu => by
    rcases List.mem_cons.mp hu with rfl | hu
    · exact hv
    · exact h.bounded u hu
  followed := by
    refine ⟨fun a ha hsource => .inl (mem_outgoing.mpr ⟨ha, hsource⟩), ?_⟩
    exact h.followed.mono (fun _ hi => hi) fun u hu => hu.imp_right fun hnil => nomatch hnil
  descends := h.descends
  roots := h.roots
  arcs := fun e he => by
    rcases List.mem_cons.mp he with rfl | he
    · exact fun a ha => (mem_outgoing.mp ha).1
    · exact h.arcs e he

/-- A vertex without edges left to follow is finished: nothing is open above it, so that
its edges are all settled. -/
theorem Sound.finish {roots : List Nat} {v : Nat} {below : List (Nat × List Arc)}
    {finished skipped : List Nat} (h : Sound d ⟨roots, (v, []) :: below, finished, skipped⟩) :
    Sound d ⟨roots, below, v :: finished, skipped⟩ where
  nodup := List.perm_middle.nodup_iff.mpr h.nodup
  bounded := fun u hu => h.bounded u (List.perm_middle.mem_iff.mp hu)
  followed := h.followed.2.mono (fun _ hi => hi) fun u hu => by
    rcases hu with hu | hu
    · exact .inl (List.mem_cons_of_mem _ hu)
    · obtain rfl := List.mem_singleton.mp hu
      exact .inl List.mem_cons_self
  descends := by
    -- Nothing was opened after the vertex that is finished, so its edges that were not skipped lead
    -- to finished vertices.
    refine ⟨fun a ha hsource => ?_, h.descends⟩
    rw [Digraph.mem_without] at ha
    rcases h.followed.1 a ha.1 hsource with hnil | hskip | hdone | hnil
    · cases hnil
    · exact absurd hskip ha.2
    · exact hdone
    · cases hnil
  roots := h.roots
  arcs := fun e he => h.arcs e (List.mem_cons_of_mem _ he)

/-- The edges that are left to follow after one of them are edges of the graph. -/
theorem Sound.arcs_tail {roots : List Nat} {v : Nat} {a : Arc} {more : List Arc}
    {below : List (Nat × List Arc)} {finished skipped : List Nat}
    (h : Sound d ⟨roots, (v, a :: more) :: below, finished, skipped⟩) :
    ∀ e ∈ (v, more) :: below, ∀ b ∈ e.2, b ∈ d.arcs := by
  intro e he
  rcases List.mem_cons.mp he with rfl | he
  · exact fun b hb => h.arcs _ List.mem_cons_self b (List.mem_cons_of_mem _ hb)
  · exact h.arcs e (List.mem_cons_of_mem _ he)

/-- An edge to a finished vertex has been followed, and so has one that is skipped. Both are taken
off the stack in the same way, which is why there is one lemma. -/
theorem Sound.follow {roots : List Nat} {v : Nat} {a : Arc} {more : List Arc}
    {below : List (Nat × List Arc)} {finished skipped skipped' : List Nat}
    (h : Sound d ⟨roots, (v, a :: more) :: below, finished, skipped⟩)
    (hsub : ∀ i ∈ skipped, i ∈ skipped') (hsettled : a.id ∈ skipped' ∨ a.target ∈ finished) :
    Sound d ⟨roots, (v, more) :: below, finished, skipped'⟩ where
  nodup := h.nodup
  bounded := h.bounded
  followed := by
    -- Of the edges of `v`, the one that is taken off the stack is settled, and the others stay as
    -- they are.
    refine ⟨fun b hb hsource => ?_, h.followed.2.mono hsub fun _ hu => hu⟩
    rcases h.followed.1 b hb hsource with hmore | hskip | hrest
    · rcases List.mem_cons.mp hmore with rfl | hmore
      · exact .inr (hsettled.imp_right .inl)
      · exact .inl hmore
    · exact .inr (.inl (hsub _ hskip))
    · exact .inr (.inr hrest)
  descends := h.descends.without_mono hsub
  roots := h.roots
  arcs := h.arcs_tail

/-- An edge to a new vertex has been followed once that vertex is open. It is dropped from the list
of its source, since the vertex opened later accounts for it. -/
theorem Sound.descend {roots : List Nat} {v : Nat} {a : Arc} {more : List Arc}
    {below : List (Nat × List Arc)} {finished skipped : List Nat}
    (h : Sound d ⟨roots, (v, a :: more) :: below, finished, skipped⟩) (hv : a.target < d.size)
    (hnew : a.target ∉ visited ⟨roots, (v, a :: more) :: below, finished, skipped⟩) :
    Sound d ⟨roots, (a.target, d.outgoing a.target) :: (v, more) :: below, finished, skipped⟩ := by
  have hopen := h.open hv hnew
  refine ⟨hopen.nodup, hopen.bounded, ⟨hopen.followed.1, fun b hb hsource => ?_,
    hopen.followed.2.2⟩, hopen.descends, hopen.roots, fun e he => ?_⟩
  · rcases hopen.followed.2.1 b hb hsource with hmore | hrest
    · rcases List.mem_cons.mp hmore with rfl | hmore
      · exact .inr (.inr (.inr List.mem_cons_self))
      · exact .inl hmore
    · exact .inr hrest
  · rcases List.mem_cons.mp he with rfl | he
    · exact fun b hb => (mem_outgoing.mp hb).1
    · exact h.arcs_tail e he

/-- The kinds of steps. Each takes up a root, finishes a vertex, or follows an edge; a search at its
end stands still. What is proved of a step, its invariant, its measure and what it visits, is proved
by these cases, so that nothing else opens the definition. -/
theorem step_cases (d : Digraph) (s : Search) :
    (s.stack = [] ∧ s.roots = [] ∧ s.step d = s)
    ∨ (∃ root roots, s.stack = [] ∧ s.roots = root :: roots
      ∧ (root ∈ s.finished ∧ s.step d = { s with roots := roots }
        ∨ root ∉ s.visited
          ∧ s.step d = { s with roots := roots, stack := [(root, d.outgoing root)] }))
    ∨ (∃ v below, s.stack = (v, []) :: below
      ∧ s.step d = { s with stack := below, finished := v :: s.finished })
    ∨ (∃ v a more below, s.stack = (v, a :: more) :: below
      ∧ (a.target ∈ s.stack.map Prod.fst
          ∧ s.step d = { s with stack := (v, more) :: below, skipped := a.id :: s.skipped }
        ∨ a.target ∈ s.finished ∧ s.step d = { s with stack := (v, more) :: below }
        ∨ a.target ∉ s.visited ∧ s.step d = { s with
            stack := (a.target, d.outgoing a.target) :: (v, more) :: below })) := by
  obtain ⟨roots, stack, finished, skipped⟩ := s
  cases stack with
  | nil =>
    cases roots with
    | nil => exact .inl ⟨rfl, rfl, rfl⟩
    | cons root roots =>
      refine .inr (.inl ⟨root, roots, rfl, rfl, ?_⟩)
      by_cases hdone : root ∈ finished
      · exact .inl ⟨hdone, by simp [Search.step, hdone]⟩
      · exact .inr ⟨hdone, by simp [Search.step, hdone]⟩
  | cons e below =>
    obtain ⟨v, more⟩ := e
    cases more with
    | nil => exact .inr (.inr (.inl ⟨v, below, rfl, rfl⟩))
    | cons a more =>
      refine .inr (.inr (.inr ⟨v, a, more, below, rfl, ?_⟩))
      -- The target is open, finished, or neither, which is tried in this order.
      by_cases hopen : a.target ∈ ((v, a :: more) :: below).map Prod.fst
      · refine .inl ⟨hopen, ?_⟩
        unfold Search.step
        simp only [isOpen_iff, if_pos hopen]
      · refine .inr ?_
        by_cases hdone : a.target ∈ finished
        · refine .inl ⟨hdone, ?_⟩
          unfold Search.step
          simp only [isOpen_iff, if_neg hopen, if_pos hdone]
        · refine .inr ⟨fun hmem => (List.mem_append.mp hmem).elim hopen hdone, ?_⟩
          unfold Search.step
          simp only [isOpen_iff, if_neg hopen, if_neg hdone]

/-- Every step keeps the invariant. An edge back to an open vertex is skipped, one to a finished
vertex leads down the list already, and one to a new vertex opens it above its source. -/
theorem Sound.step (h : Sound d s) (htargets : ∀ a ∈ d.arcs, a.target < d.size) :
    Sound d (s.step d) := by
  obtain ⟨roots, stack, finished, skipped⟩ := s
  rcases step_cases d ⟨roots, stack, finished, skipped⟩ with ⟨_, _, hstep⟩
    | ⟨root, rest, hstack, hroots, hcase⟩ | ⟨v, below, hstack, hstep⟩
    | ⟨v, a, more, below, hstack, hcase⟩
  · rw [hstep]
    exact h
  -- The stack is empty, and the search goes on from the next root, unless that was visited before.
  · obtain rfl : stack = [] := hstack
    obtain rfl : roots = root :: rest := hroots
    have hrest : Sound d ⟨rest, [], finished, skipped⟩ :=
      ⟨h.nodup, h.bounded, h.followed, h.descends,
        fun v hv => h.roots v (List.mem_cons_of_mem _ hv), h.arcs⟩
    rcases hcase with ⟨_, hstep⟩ | ⟨hnew, hstep⟩
    · rw [hstep]
      exact hrest
    · rw [hstep]
      exact hrest.open (h.roots root List.mem_cons_self) hnew
  · obtain rfl : stack = (v, []) :: below := hstack
    rw [hstep]
    exact h.finish
  · obtain rfl : stack = (v, a :: more) :: below := hstack
    have harc : a ∈ d.arcs := h.arcs _ List.mem_cons_self a List.mem_cons_self
    rcases hcase with ⟨_, hstep⟩ | ⟨hdone, hstep⟩ | ⟨hnew, hstep⟩
    · -- The edge leads back to an open vertex, but it is skipped.
      rw [hstep]
      exact h.follow (fun _ hi => List.mem_cons_of_mem _ hi) (.inl List.mem_cons_self)
    · rw [hstep]
      exact h.follow (fun _ hi => hi) (.inr hdone)
    · rw [hstep]
      exact h.descend (htargets a harc) hnew

/-! ### The end of the search

Every step takes up a root, finishes a vertex or follows an edge. A vertex is opened once, so
that all of this can be counted beforehand.
-/

/-- The vertices that the search has not come to. -/
def unopened (d : Digraph) (s : Search) : List Nat :=
  (List.range d.size).filter fun v => !s.visited.contains v

/-- The work that is left: roots to take up, vertices to finish, and edges to follow, both of
open vertices and of those that are not opened yet. -/
def potential (d : Digraph) (s : Search) : Nat :=
  s.roots.length + (s.stack.length + (s.stack.flatMap Prod.snd).length)
    + ((unopened d s).length + ((unopened d s).flatMap d.outgoing).length)

/-- A vertex is unopened until it is visited. -/
theorem unopened_congr {s' : Search} (h : ∀ v, v ∈ s'.visited ↔ v ∈ s.visited) :
    unopened d s' = unopened d s := by
  refine List.filter_congr fun v _ => ?_
  rw [Bool.eq_iff_iff]
  simp [h v]

/-- Opening a vertex takes it from those that are unopened. -/
theorem unopened_perm {s' : Search} {v : Nat} (hv : v < d.size) (hnew : v ∉ s.visited)
    (hvisited : s'.visited = v :: s.visited) : (unopened d s).Perm (v :: unopened d s') := by
  have hmem : v ∈ unopened d s := by simp [unopened, hv, hnew]
  have hnodup : (unopened d s).Nodup := List.nodup_range.filter _
  have hrest : (unopened d s).erase v = unopened d s' := by
    rw [hnodup.erase_eq_filter, unopened, List.filter_filter]
    refine List.filter_congr fun u _ => ?_
    rw [hvisited, List.contains_cons, Bool.not_or]
    rfl
  exact hrest ▸ List.perm_cons_erase hmem

/-- The work of a vertex is counted before it is opened. -/
theorem length_unopened {s' : Search} {v : Nat} (hv : v < d.size) (hnew : v ∉ s.visited)
    (hvisited : s'.visited = v :: s.visited) :
    (unopened d s).length + ((unopened d s).flatMap d.outgoing).length
      = 1 + (d.outgoing v).length
        + ((unopened d s').length + ((unopened d s').flatMap d.outgoing).length) := by
  have hperm := unopened_perm hv hnew hvisited
  rw [hperm.length_eq, (hperm.flatMap_right d.outgoing).length_eq, List.flatMap_cons,
    List.length_append, List.length_cons]
  omega

/-- Every step does one piece of the work: it takes a root off the list, opens a vertex, follows an
edge or finishes a vertex. Opening a vertex moves it and its edges from what is not opened to the
stack, and so costs nothing beyond the edge or the root that led there. -/
theorem potential_step (h : Sound d s) (htargets : ∀ a ∈ d.arcs, a.target < d.size)
    (hleft : s.stack = [] → s.roots ≠ []) : potential d (s.step d) + 1 = potential d s := by
  rw [potential, potential]
  rcases step_cases d s with ⟨hstack, hroots, _⟩ | ⟨root, rest, hstack, hroots, hcase⟩
    | ⟨v, below, hstack, hstep⟩ | ⟨v, a, more, below, hstack, hcase⟩
  -- The search is at its end only with no roots left.
  · exact absurd hroots (hleft hstack)
  · rcases hcase with ⟨_, hstep⟩ | ⟨hnew, hstep⟩
    · have hsame : unopened d (s.step d) = unopened d s :=
        unopened_congr fun u => by rw [hstep]; exact .rfl
      rw [hsame, hstep, hroots]
      simp only [List.length_cons]
      omega
    -- The root is opened, and its edges are to be followed from now on.
    · have hroot : root < d.size := h.roots root (hroots ▸ List.mem_cons_self)
      have hvisited : (s.step d).visited = root :: s.visited := by
        rw [hstep, visited, visited, hstack]
        rfl
      rw [length_unopened hroot hnew hvisited, hstep, hstack, hroots]
      simp only [List.length_cons, List.length_nil, List.flatMap_cons, List.flatMap_nil,
        List.append_nil]
      omega
  · have hsame : unopened d (s.step d) = unopened d s := unopened_congr fun u => by
      rw [hstep, visited, visited, hstack]
      exact List.perm_middle.mem_iff
    rw [hsame, hstep, hstack]
    simp only [List.length_cons, List.flatMap_cons, List.nil_append]
    omega
  · have harc : a ∈ d.arcs := h.arcs (v, a :: more) (hstack ▸ List.mem_cons_self) a
      List.mem_cons_self
    -- As long as no vertex is opened, one edge less is left to follow.
    have hsame : ∀ {s' : Search}, s'.finished = s.finished → s'.stack = (v, more) :: below →
        unopened d s' = unopened d s := fun hfinished hstack' => unopened_congr fun u => by
      rw [visited, visited, hfinished, hstack', hstack]
      exact .rfl
    rcases hcase with ⟨_, hstep⟩ | ⟨_, hstep⟩ | ⟨hnew, hstep⟩
    · rw [hsame (by rw [hstep]) (by rw [hstep]), hstep, hstack]
      simp only [List.length_cons, List.flatMap_cons, List.length_append]
      omega
    · rw [hsame (by rw [hstep]) (by rw [hstep]), hstep, hstack]
      simp only [List.length_cons, List.flatMap_cons, List.length_append]
      omega
    · have hvisited : (s.step d).visited = a.target :: s.visited := by
        rw [hstep, visited, visited, hstack]
        rfl
      rw [length_unopened (htargets a harc) hnew hvisited, hstep, hstack]
      simp only [List.length_cons, List.flatMap_cons, List.length_append]
      omega

/-- No step loses a root before it is visited. A root that is taken off the list is finished
already, or opened by this very step; and what was visited once stays so. -/
theorem step_visited {v : Nat} (h : v ∈ s.roots ∨ v ∈ s.visited) :
    v ∈ (s.step d).roots ∨ v ∈ (s.step d).visited := by
  obtain ⟨roots, stack, finished, skipped⟩ := s
  rcases step_cases d ⟨roots, stack, finished, skipped⟩ with ⟨_, _, hstep⟩
    | ⟨root, rest, hstack, hroots, hcase⟩ | ⟨u, below, hstack, hstep⟩
    | ⟨u, a, more, below, hstack, hcase⟩
  · rwa [hstep]
  · obtain rfl : stack = [] := hstack
    obtain rfl : roots = root :: rest := hroots
    -- A root that leaves the list is finished already or opened now.
    have hsplit : v = root ∨ v ∈ rest ∨ v ∈ finished := by
      rcases h with h | h
      · exact (List.mem_cons.mp h).imp_right .inl
      · exact .inr (.inr h)
    rcases hcase with ⟨hdone, hstep⟩ | ⟨_, hstep⟩
    · rw [hstep]
      exact hsplit.elim (fun heq => .inr (heq ▸ hdone)) id
    · rw [hstep]
      rcases hsplit with rfl | hrest | hdone
      · exact .inr List.mem_cons_self
      · exact .inl hrest
      · exact .inr (List.mem_cons_of_mem _ hdone)
  · obtain rfl : stack = (u, []) :: below := hstack
    rw [hstep]
    -- The vertex only moves from the open to the finished ones.
    exact h.imp_right List.perm_middle.mem_iff.mpr
  · obtain rfl : stack = (u, a :: more) :: below := hstack
    rcases hcase with ⟨_, hstep⟩ | ⟨_, hstep⟩ | ⟨_, hstep⟩
    · rwa [hstep]
    · rwa [hstep]
    · rw [hstep]
      exact h.imp_right (List.mem_cons_of_mem _)

/-- No vertex is open any more, and no root is left. -/
def Ended (s : Search) : Prop := s.stack = [] ∧ s.roots = []

/-- A search that has ended stays as it is. -/
theorem run_of_done (h : s.Ended) (n : Nat) : run d n s = s := by
  have hstep : s.step d = s := by simp [Search.step, h.1, h.2]
  induction n with
  | zero => rfl
  | succ n ih => rw [run, hstep, ih]

/-- With enough steps the search ends, and every root is finished then. Enough is the work that is
left, since every step does one piece of it. -/
theorem run_done {n : Nat} (h : Sound d s) (htargets : ∀ a ∈ d.arcs, a.target < d.size)
    (hfuel : potential d s ≤ n) :
    Sound d (run d n s) ∧ (run d n s).Ended
      ∧ ∀ v, v ∈ s.roots ∨ v ∈ s.visited → v ∈ (run d n s).finished := by
  induction n generalizing s with
  | zero =>
    -- Without work left there is no open vertex and no root.
    have hroots : s.roots = [] := List.length_eq_zero_iff.mp (by unfold potential at hfuel; omega)
    have hstack : s.stack = [] := by
      cases hs : s.stack with
      | nil => rfl
      | cons e below =>
        rw [potential, hs, List.length_cons] at hfuel
        omega
    refine ⟨h, ⟨hstack, hroots⟩, fun v hv => ?_⟩
    simpa [run, visited, hstack, hroots] using hv
  | succ n ih =>
    by_cases hdone : s.stack = [] ∧ s.roots = []
    · rw [run_of_done hdone]
      refine ⟨h, hdone, fun v hv => ?_⟩
      simpa [visited, hdone.1, hdone.2] using hv
    · have hstep := potential_step h htargets fun hstack hroots => hdone ⟨hstack, hroots⟩
      obtain ⟨hsound, hended, hfinished⟩ := ih (h.step htargets) (by omega)
      exact ⟨hsound, hended, fun v hv => hfinished v (step_visited hv)⟩

/-- No more edges leave the vertices of a list without repetitions than there are. The induction
takes the edges of one vertex away from all edges, and so is for every list of edges. -/
theorem length_outgoing_le {vs : List Nat} (hnodup : vs.Nodup) (arcs : List Arc) :
    (vs.flatMap fun v => arcs.filter fun a => a.source == v).length ≤ arcs.length := by
  induction vs generalizing arcs with
  | nil => exact Nat.zero_le _
  | cons v vs ih =>
    obtain ⟨hv, hvs⟩ := List.nodup_cons.mp hnodup
    -- The edges of the other vertices are not among those that leave `v`.
    have hsame : (vs.flatMap fun u => (arcs.filter fun a => !(a.source == v)).filter
        fun a => a.source == u) = vs.flatMap fun u => arcs.filter fun a => a.source == u := by
      refine congrArg List.flatten (List.map_congr_left fun u hu => ?_)
      rw [List.filter_filter]
      refine List.filter_congr fun a _ => ?_
      by_cases ha : a.source = u
      · have hne : u ≠ v := fun heq => hv (heq ▸ hu)
        simp [ha, hne]
      · simp [ha]
    have hrest := ih hvs (arcs.filter fun a => !(a.source == v))
    rw [hsame] at hrest
    have hsplit : arcs.length = (arcs.filter fun a => a.source == v).length
        + (arcs.filter fun a => !(a.source == v)).length := by
      rw [← List.countP_eq_length_filter, ← List.countP_eq_length_filter,
        arcs.length_eq_countP_add_countP fun a => a.source == v]
      simp only [Bool.not_eq_true, Bool.decide_eq_false]
    rw [List.flatMap_cons, List.length_append, hsplit]
    exact Nat.add_le_add_left hrest _

/-- Before the first step, no more work is left than `complete` has steps for. -/
theorem potential_init_le (roots : List Nat) :
    potential d ⟨roots, [], [], []⟩ ≤ 2 * d.size + d.arcs.length + roots.length := by
  have hunopened : unopened d ⟨roots, [], [], []⟩ = List.range d.size :=
    List.filter_eq_self.mpr fun _ _ => rfl
  have hedges : ((List.range d.size).flatMap d.outgoing).length ≤ d.arcs.length :=
    length_outgoing_le List.nodup_range d.arcs
  rw [potential, hunopened, List.length_range]
  simp only [List.flatMap_nil, List.length_nil]
  omega

/-- The search ends. Without the edges that it skips, the vertices descend in the reverse of the
order in which they were finished, and none is missing. -/
theorem complete_descends {roots : List Nat} (htargets : ∀ a ∈ d.arcs, a.target < d.size)
    (hroots : ∀ v ∈ roots, v < d.size) (hall : ∀ v < d.size, v ∈ roots) :
    (complete d roots).Ended
      ∧ (d.without (complete d roots).skipped).Descends (complete d roots).finished
      ∧ ∀ v < d.size, v ∈ (complete d roots).finished := by
  have hinit : Sound d ⟨roots, [], [], []⟩ :=
    ⟨List.nodup_nil, nofun, trivial, trivial, hroots, nofun⟩
  obtain ⟨hsound, hended, hfinished⟩ := run_done hinit htargets (potential_init_le roots)
  exact ⟨hended, hsound.descends, fun v hv => hfinished v (.inl (hall v hv))⟩

end Search

end TxnPath
