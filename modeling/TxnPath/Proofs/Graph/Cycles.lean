import Mathlib.Data.List.Chain
import Mathlib.Logic.Relation
import TxnPath.Proofs.Graph.Derive

/-!
# `TxnPath.Proofs.Graph.Cycles`: the reverse order cuts cycles, and nothing else

A depth-first search skips the edges that lead to an open vertex. Two facts make this the
right choice. Without the skipped edges the finished vertices descend, so that no cycle is
left (`Digraph.Descends.acyclic`). And no edge is skipped in vain: the open vertices form a
way through the graph (`Search.Traced`), so that an edge from the innermost of them to any
other closes a cycle. The first fact needs the whole invariant of the search in
`Proofs/Graph/Search.lean`. The second needs only the stack, and no bound on the vertices.

`Graph.Reversed` lists what a reverse order should be. `Initialized.reverseOrder_cuts_cycles`
says that the search and the peeling both run to their end on every initialized graph whose
COMMIT and ABORT no edge leaves, that no count of pending edges is ever taken below zero on
the way, and that the result is such an order. Deriving then meets no unset successor.
-/

set_option autoImplicit false

namespace TxnPath

open Relation (TransGen ReflTransGen)

namespace Digraph

variable {d : Digraph}

/-- An edge leads from one vertex to another. -/
def Leads (d : Digraph) (u v : Nat) : Prop := ∃ a ∈ d.arcs, a.source = u ∧ a.target = v

/-- No vertex leads back to itself. -/
def Acyclic (d : Digraph) : Prop := ∀ v, ¬ TransGen d.Leads v v

/-- From the end of an edge, edges lead back to its beginning. -/
def OnCycle (d : Digraph) (a : Arc) : Prop := a ∈ d.arcs ∧ ReflTransGen d.Leads a.target a.source

/-- A shape with an edge on a cycle has a cycle. -/
theorem OnCycle.not_acyclic {a : Arc} (h : d.OnCycle a) : ¬ d.Acyclic := by
  intro hacyclic
  have hstep : d.Leads a.source a.target := ⟨a, h.1, rfl, rfl⟩
  exact hacyclic a.source (TransGen.head' hstep h.2)

/-- From the head of a descending list, edges only lead into its tail. -/
theorem Descends.mem_of_transGen {v w : Nat} {rest : List Nat} (h : d.Descends (v :: rest))
    (hw : TransGen d.Leads v w) : w ∈ rest := by
  induction hw with
  | single hstep =>
    obtain ⟨a, ha, hsource, rfl⟩ := hstep
    exact h.1 a ha hsource
  | tail _ hstep ih =>
    obtain ⟨a, ha, rfl, rfl⟩ := hstep
    exact h.2.closed ha ih

/-- If all vertices that edges leave are in a descending list, once each, there is no cycle. -/
theorem Descends.acyclic {l : List Nat} (h : d.Descends l) (hnodup : l.Nodup)
    (hsources : ∀ a ∈ d.arcs, a.source ∈ l) : d.Acyclic := by
  intro v hcycle
  obtain ⟨_, ⟨a, ha, rfl, _⟩, _⟩ := TransGen.head'_iff.mp hcycle
  obtain ⟨above, below, rfl⟩ := List.append_of_mem (hsources a ha)
  -- On a cycle, the vertex would come once more further down.
  have hbelow : a.source ∈ below := h.of_append.mem_of_transGen hcycle
  have htail : (a.source :: below).Nodup := (List.nodup_append.mp hnodup).2.1
  exact (List.nodup_cons.mp htail).1 hbelow

end Digraph

/-! ### The open vertices form a way -/

namespace Search

variable {d : Digraph} {s : Search}

/-- The stack of a search: its entries have edges of their own left to follow, each open vertex
leads to the one opened after it, and the edges skipped so far lie on cycles. -/
structure Traced (d : Digraph) (s : Search) : Prop where
  own : ∀ e ∈ s.stack, ∀ a ∈ e.2, a ∈ d.arcs ∧ a.source = e.1
  way : (s.stack.map Prod.fst).IsChain fun v u => d.Leads u v
  closing : ∀ i ∈ s.skipped, ∃ a, a.id = i ∧ d.OnCycle a

/-- Every open vertex leads to the innermost one. -/
theorem leads_to_innermost {v : Nat} {below : List Nat}
    (h : (v :: below).IsChain fun v u => d.Leads u v) :
    ∀ u ∈ v :: below, ReflTransGen d.Leads u v := by
  induction below generalizing v with
  | nil =>
    intro u hu
    rw [List.mem_singleton.mp hu]
  | cons w below ih =>
    obtain ⟨hstep, hrest⟩ := List.isChain_cons_cons.mp h
    intro u hu
    rcases List.mem_cons.mp hu with rfl | hu
    · exact .refl
    · exact (ih hrest u hu).tail hstep

/-- Following an edge takes it from the entry on top and leaves the way as it is. -/
theorem Traced.follow {roots : List Nat} {v : Nat} {a : Arc} {more : List Arc}
    {below : List (Nat × List Arc)} {finished skipped skipped' : List Nat}
    (h : Traced d ⟨roots, (v, a :: more) :: below, finished, skipped⟩)
    (hclosing : ∀ i ∈ skipped', ∃ a, a.id = i ∧ d.OnCycle a) :
    Traced d ⟨roots, (v, more) :: below, finished, skipped'⟩ where
  own := by
    intro e he
    rcases List.mem_cons.mp he with rfl | he
    · intro b hb
      exact h.own _ List.mem_cons_self b (List.mem_cons_of_mem a hb)
    · exact h.own e (List.mem_cons_of_mem _ he)
  way := h.way
  closing := hclosing

/-- Opening a vertex that the innermost one leads to, or any vertex where none is open, makes
the way longer by it. -/
theorem Traced.open {v : Nat} (h : Traced d s)
    (hway : (v :: s.stack.map Prod.fst).IsChain fun v u => d.Leads u v) :
    Traced d { s with stack := (v, d.outgoing v) :: s.stack } where
  own := by
    intro e he
    rcases List.mem_cons.mp he with rfl | he
    · intro a ha
      exact mem_outgoing.mp ha
    · exact h.own e he
  way := hway
  closing := h.closing

/-- A step of the search keeps the open vertices on one way through the graph: a vertex is opened by
an edge from the innermost, and closed from the end. -/
theorem Traced.step (h : Traced d s) : Traced d (s.step d) := by
  obtain ⟨roots, stack, finished, skipped⟩ := s
  rcases step_cases d ⟨roots, stack, finished, skipped⟩ with ⟨_, _, hstep⟩
    | ⟨root, rest, hstack, hroots, hcase⟩ | ⟨v, below, hstack, hstep⟩
    | ⟨v, a, more, below, hstack, hcase⟩
  · rw [hstep]
    exact h
  · obtain rfl : stack = [] := hstack
    have hrest : Traced d ⟨rest, [], finished, skipped⟩ := ⟨h.own, h.way, h.closing⟩
    rcases hcase with ⟨_, hstep⟩ | ⟨_, hstep⟩
    · rw [hstep]
      exact hrest
    · rw [hstep]
      exact hrest.open (List.isChain_singleton root)
  · obtain rfl : stack = (v, []) :: below := hstack
    rw [hstep]
    exact ⟨fun e he => h.own e (List.mem_cons_of_mem _ he), h.way.tail, h.closing⟩
  · obtain rfl : stack = (v, a :: more) :: below := hstack
    obtain ⟨harc, rfl⟩ := h.own _ List.mem_cons_self a List.mem_cons_self
    rcases hcase with ⟨hopen, hstep⟩ | ⟨_, hstep⟩ | ⟨_, hstep⟩
    · rw [hstep]
      -- The target is open and so leads to the innermost vertex, which the edge leaves.
      have hcycle : d.OnCycle a := ⟨harc, leads_to_innermost h.way _ hopen⟩
      refine h.follow fun i hi => ?_
      rcases List.mem_cons.mp hi with rfl | hi
      · exact ⟨a, rfl, hcycle⟩
      · exact h.closing i hi
    · rw [hstep]
      exact h.follow h.closing
    · rw [hstep]
      have hleads : d.Leads a.source a.target := ⟨a, harc, rfl, rfl⟩
      exact (h.follow h.closing).open (List.isChain_cons_cons.mpr ⟨hleads, h.way⟩)

/-- So they are on one throughout the search. -/
theorem Traced.run {n : Nat} (h : Traced d s) : Traced d (run d n s) := by
  induction n generalizing s with
  | zero => exact h
  | succ n ih => exact ih h.step

/-- Every edge that the whole search skips lies on a cycle. -/
theorem onCycle_of_skipped {roots : List Nat} {i : Nat} (h : i ∈ (complete d roots).skipped) :
    ∃ a, a.id = i ∧ d.OnCycle a := by
  have hinit : Traced d ⟨roots, [], [], []⟩ := ⟨nofun, .nil, nofun⟩
  exact hinit.run.closing i h

end Search

/-! ### The reverse order of a graph -/

namespace Graph

variable {R : Type} {g : Graph R} {s : Sentinels}

/-- What a reverse order of a graph should be. -/
structure Reversed (g : Graph R) (r : ReverseOrder) : Prop where
  /-- No vertex is listed twice. -/
  once : r.order.Nodup
  /-- The vertices listed are those of the graph. -/
  all : ∀ v, v ∈ r.order ↔ v < g.vertices.size
  /-- Every vertex is listed after the targets of all edges that leave it and are not skipped. -/
  behind : ∀ before v after, r.order = before ++ v :: after →
    ∀ i e, g.edges[i]? = some e → e.source = v → i ∉ r.skipped → e.target ∈ before
  /-- The edges that are not skipped form no cycle. -/
  acyclic : (g.shape.without r.skipped).Acyclic
  /-- From the target of every skipped edge, edges lead back to its source. -/
  cyclic : ∀ i ∈ r.skipped, ∃ e, g.edges[i]? = some e
    ∧ ReflTransGen g.shape.Leads e.target e.source
  /-- Where there is no cycle, nothing is skipped. -/
  nothing : g.shape.Acyclic → r.skipped = []

/-- An edge that closes a cycle lies on one. -/
theorem onCycle_of_backEdge {i : Nat} (h : i ∈ g.backEdges) :
    ∃ a, a.id = i ∧ g.shape.OnCycle a := by
  rw [backEdges, List.mem_filter] at h
  exact Search.onCycle_of_skipped (List.contains_iff_mem.mp h.2)

/-- Without cycles no edge is skipped, since only edges that close one are. -/
theorem backEdges_of_acyclic (h : g.shape.Acyclic) : g.backEdges = [] := by
  refine List.eq_nil_iff_forall_not_mem.mpr fun i hi => ?_
  obtain ⟨a, _, hcycle⟩ := onCycle_of_backEdge hi
  exact hcycle.not_acyclic h

/-- A list of all vertices that descends backwards without the back edges is a reverse order.
`Reversed` speaks of the edges of the graph, whereas descending is about its shape. -/
theorem Initialized.reversed (h : g.Initialized s) {order : List Nat} (honce : order.Nodup)
    (hall : ∀ v, v ∈ order ↔ v < g.vertices.size)
    (hdescends : (g.shape.without g.backEdges).Descends order.reverse) :
    g.Reversed ⟨order, g.backEdges⟩ where
  once := honce
  all := hall
  behind := by
    intro before v after horder i e he hsource hkept
    have horder : order = before ++ v :: after := horder
    rw [horder, List.reverse_append, List.reverse_cons, List.append_assoc] at hdescends
    have harc : ⟨i, v, e.target⟩ ∈ (g.shape.without g.backEdges).arcs :=
      Digraph.mem_without.mpr ⟨mem_shape_arcs.mpr ⟨e, he, hsource.symm, rfl⟩, hkept⟩
    exact List.mem_reverse.mp (hdescends.of_append.1 _ harc rfl)
  acyclic := by
    refine hdescends.acyclic ((List.reverse_perm order).nodup_iff.mpr honce) fun a ha => ?_
    have harc := (Digraph.mem_without.mp ha).1
    exact List.mem_reverse.mpr ((hall a.source).mpr (h.shape_arcs harc).1)
  cyclic := by
    intro i hi
    -- A skipped edge led to an open vertex, and the way between the two closes a cycle.
    obtain ⟨a, rfl, harc, hback⟩ := onCycle_of_backEdge hi
    obtain ⟨e, he, hsource, htarget⟩ := mem_shape_arcs.mp harc
    exact ⟨e, he, hsource ▸ htarget ▸ hback⟩
  nothing := backEdges_of_acyclic

/-- On an initialized graph whose COMMIT and ABORT no edge leaves, the search ends with no vertex
open and no root left, and the peeling ends with no vertex ready and without a fault. What comes
out is a reverse order, in which the skipped edges are those that close cycles, and deriving the
probabilities along it succeeds. -/
theorem Initialized.reverseOrder_cuts_cycles [Scalar R] (h : g.Initialized s)
    (hends : ∀ e ∈ g.edges, e.source ≠ s.commit ∧ e.source ≠ s.abort) :
    (Search.complete g.shape g.searchRoots).Ended
      ∧ ∃ f g', Frontier.complete (g.shape.without g.backEdges) g.sinks = .ok f ∧ f.ready = []
        ∧ g.reverseOrder = .ok ⟨f.order, g.backEdges⟩ ∧ g.Reversed ⟨f.order, g.backEdges⟩
        ∧ g.derive = .ok g' := by
  obtain ⟨hended, f, hrun, hready, honce, hall, hdescends⟩ := h.peeling_ok hends
  have horder : g.reverseOrder = .ok ⟨f.order, g.backEdges⟩ := by rw [reverseOrder, hrun]
  obtain ⟨_, g', _, hderive, _⟩ := h.derive_ok hends
  exact ⟨hended, f, g', hrun, hready, horder, h.reversed honce hall hdescends, hderive⟩

/-- A graph with two cycles and loose ends. A read follows itself, a write follows the read and
leads back to it, and one call more was seen but never reached. -/
def tangle : Graph Rat :=
  let reading : Call := ⟨0, 0, .singleton 0, .select⟩
  let writing : Call := ⟨1, 0, .singleton 0, .update⟩
  let unreached : Call := ⟨2, 0, .singleton 0, .select⟩
  let g := (((fresh 0 0 1).ensureCall reading).1.ensureCall writing).1.ensureCall unreached
  (((((g.1.link 0 3).1.link 3 3).1.link 3 4).1.link 4 3).1.link 3 1).1

/-- The graph of the example is initialized, with its two cycles and all. -/
theorem initialized_tangle : tangle.Initialized ⟨0, 1, 2⟩ := by
  refine Initialized.link (Initialized.link (Initialized.link (Initialized.link
    (Initialized.link ?_ ?_ ?_) ?_ ?_) ?_ ?_) ?_ ?_) ?_ ?_
  · exact (((initialized_fresh 0 0 1).ensureCall _).ensureCall _).ensureCall _
  all_goals decide +kernel

/-- Of the five edges, the two that lead back to the read are skipped. The unreached call
waits for nothing, and START comes last. -/
theorem reverseOrder_cuts_cycles_tangle :
    tangle.Initialized ⟨0, 1, 2⟩ ∧ (∀ e ∈ tangle.edges, e.source ≠ 1 ∧ e.source ≠ 2)
      ∧ tangle.reverseOrder = .ok ⟨[1, 2, 4, 5, 3, 0], [1, 3]⟩
      ∧ tangle.Reversed ⟨[1, 2, 4, 5, 3, 0], [1, 3]⟩ ∧ (∃ g', tangle.derive = .ok g')
      ∧ ¬ tangle.shape.Acyclic := by
  have hends : ∀ e ∈ tangle.edges, e.source ≠ 1 ∧ e.source ≠ 2 := by decide +kernel
  obtain ⟨_, f, g', _, _, horder, hreversed, hderive⟩ :=
    initialized_tangle.reverseOrder_cuts_cycles hends
  have hresult : tangle.reverseOrder.toOption = some ⟨[1, 2, 4, 5, 3, 0], [1, 3]⟩ := by
    decide +kernel
  rw [horder] at hresult
  rw [Option.some.inj hresult] at horder hreversed
  refine ⟨initialized_tangle, hends, horder, hreversed, ⟨g', hderive⟩, fun hacyclic => ?_⟩
  exact absurd (hreversed.nothing hacyclic) (by decide)

end Graph

end TxnPath
