import Mathlib
import TxnPath.Proofs.Graph.Order

/-!
# `TxnPath.Proofs.Graph.Peeling`: when peeling fails

Peeling lists the given sinks first, without a look at their edges. If an edge leaves a sink, the
sink gets ready once more when its last edge is taken off. An edge that enters it is then taken off
twice, and the count of that edge's source goes below zero: peeling stops.

`complete_error` and `complete_total` say that on a shape whose vertices can be made to descend
this is the only way in which peeling can stop: it does so if and only if edges both enter and
leave a sink (`Digraph.Inner`). What carries both is an account of the counts and of how often
every vertex is listed (`Weighed`), which does not assume that vertices are listed once.
-/

set_option autoImplicit false

namespace TxnPath

namespace Digraph

/-- Edges enter the vertex, and edges leave it. -/
def Inner (d : Digraph) (v : Nat) : Prop :=
  (∃ a ∈ d.arcs, a.target = v) ∧ ∃ a ∈ d.arcs, a.source = v

instance (d : Digraph) (v : Nat) : Decidable (d.Inner v) :=
  inferInstanceAs (Decidable ((∃ a ∈ d.arcs, a.target = v) ∧ ∃ a ∈ d.arcs, a.source = v))

/-- The shape without the edges that leave some vertices. -/
def endingAt (d : Digraph) (ends : List Nat) : Digraph :=
  { d with arcs := d.arcs.filter fun a => !ends.contains a.source }

/-- The edges that are left when nothing leaves certain vertices. -/
theorem mem_endingAt {d : Digraph} {ends : List Nat} {a : Arc} :
    a ∈ (d.endingAt ends).arcs ↔ a ∈ d.arcs ∧ a.source ∉ ends := by
  simp [endingAt]

/-- The source of an edge has an edge to leave by. -/
theorem outgoing_ne_nil {d : Digraph} {a : Arc} (ha : a ∈ d.arcs) : d.outgoing a.source ≠ [] :=
  List.ne_nil_of_mem (Search.mem_outgoing.mpr ⟨ha, rfl⟩)

end Digraph

open TxnPath.Digraph

namespace Frontier

variable {d : Digraph} {sinks : List Nat} {f f' : Frontier} {left : List Arc}

/-- How often the targets of a vertex's edges have been listed, edge by edge. -/
def taken (d : Digraph) (order : List Nat) (v : Nat) : Nat :=
  ((d.outgoing v).map fun a => order.count a.target).sum

/-- Whether a vertex has become ready by itself: it has no edges and is not given as a sink, or its
last edge has been taken off. -/
def due (d : Digraph) (sinks : List Nat) (f : Frontier) (v : Nat) : Bool :=
  if d.outgoing v = [] then decide (v < d.size) && !sinks.contains v else f.pending[v]? == some 0

/-- The account of a peeling within a step, while `left` are still to be taken off. Every vertex has
the edges counted that have not been taken off, and is ready or listed as often as it is given as a
sink, and once more if it is due. -/
structure Weighed (d : Digraph) (sinks : List Nat) (left : List Arc) (f : Frontier) : Prop where
  size : f.pending.size = d.size
  pending : ∀ v n, f.pending[v]? = some n →
    n + taken d f.order v = (d.outgoing v).length + left.countP fun a => a.source == v
  listed : ∀ v, (f.ready ++ f.order).count v = sinks.count v + (due d sinks f v).toNat

/-! ### Sums over the edges of a vertex -/

section Taken

variable {order : List Nat} {v : Nat}

/-- Counting is summing ones. It is in this form that the lengths of two lists are compared term by
term. -/
theorem length_eq_sum (es : List Arc) : es.length = (es.map fun _ => 1).sum := by simp

/-- With every target listed, at least every edge is taken. -/
theorem length_le_taken (h : ∀ a ∈ d.outgoing v, a.target ∈ order) :
    (d.outgoing v).length ≤ taken d order v := by
  rw [length_eq_sum]
  exact List.sum_le_sum fun a ha => List.count_pos_iff.mpr (h a ha)

/-- If one of the targets is listed twice besides, more is taken than there are edges. -/
theorem length_lt_taken (h : ∀ a ∈ d.outgoing v, a.target ∈ order)
    (htwice : ∃ a ∈ d.outgoing v, 1 < order.count a.target) :
    (d.outgoing v).length < taken d order v := by
  rw [length_eq_sum]
  exact List.sum_lt_sum _ _ (fun a ha => List.count_pos_iff.mpr (h a ha)) htwice

/-- With no target listed twice, at most every edge is taken. -/
theorem taken_le_length (h : ∀ a ∈ d.outgoing v, order.count a.target ≤ 1) :
    taken d order v ≤ (d.outgoing v).length := by
  rw [length_eq_sum]
  exact List.sum_le_sum h

/-- If every edge is taken and none twice, then all targets are listed. -/
theorem mem_of_taken (h : ∀ a ∈ d.outgoing v, order.count a.target ≤ 1)
    (hall : taken d order v = (d.outgoing v).length) : ∀ a ∈ d.outgoing v, a.target ∈ order := by
  intro a ha
  refine Decidable.byContradiction fun hnew => ?_
  have hlt : taken d order v < (d.outgoing v).length := by
    rw [length_eq_sum]
    exact List.sum_lt_sum _ _ h ⟨a, ha, Nat.lt_one_iff.mpr (List.count_eq_zero.mpr hnew)⟩
  exact Nat.ne_of_lt hlt hall

/-- Listing a vertex takes the edges that lead to it. At each source this is counted by the edges
that enter the vertex, and by those that leave the source, and the two counts are the same. -/
theorem taken_concat (u : Nat) :
    taken d (order ++ [u]) v = taken d order v + (d.incoming u).countP fun a => a.source == v := by
  have hcount : (d.incoming u).countP (fun a => a.source == v)
      = (d.outgoing v).countP fun a => a.target == u := by
    rw [Digraph.incoming, Digraph.outgoing, List.countP_filter, List.countP_filter]
    exact List.countP_congr fun a _ => by simp [and_comm]
  rw [hcount, taken, taken]
  induction d.outgoing v with
  | nil => rfl
  | cons a es ih =>
    rw [List.map_cons, List.sum_cons, ih, List.map_cons, List.sum_cons, List.countP_cons,
      List.count_append, List.count_singleton]
    simp only [beq_iff_eq, eq_comm (a := u)]
    omega

end Taken

/-! ### One edge -/

/-- A vertex with edges is due once they have all been taken off. -/
theorem due_of_outgoing {v : Nat} (h : d.outgoing v ≠ []) :
    due d sinks f v = (f.pending[v]? == some 0) := if_neg h

/-- Whether a vertex is due depends on its own count. -/
theorem due_congr {v : Nat} (h : f'.pending[v]? = f.pending[v]?) :
    due d sinks f' v = due d sinks f v := by
  rw [due, due, h]

/-- An edge can be taken off its source unless nothing is left to be counted there. The count of its
source goes down by one, as does the number of edges that this step has left to take off; the source
gets ready when its count comes to zero, sink or not. -/
theorem Weighed.relax {a : Arc} {n : Nat} (h : Weighed d sinks (a :: left) f) (ha : a ∈ d.arcs)
    (hcount : f.pending[a.source]? = some (n + 1)) :
    ∃ f', f.relax a = .ok f' ∧ Weighed d sinks left f' ∧ f'.order = f.order := by
  refine ⟨_, relax_ok hcount, ?_, rfl⟩
  have hsource : a.source < f.pending.size := (Array.getElem?_eq_some_iff.mp hcount).1
  have hself : (f.pending.setIfInBounds a.source n)[a.source]? = some n := by
    rw [Array.getElem?_setIfInBounds, if_pos rfl, if_pos hsource]
  have hother : ∀ v, a.source ≠ v → (f.pending.setIfInBounds a.source n)[v]? = f.pending[v]? :=
    fun v hv => by rw [Array.getElem?_setIfInBounds, if_neg hv]
  refine ⟨Array.size_setIfInBounds.trans h.size, fun v m hm => ?_, fun v => ?_⟩
  · by_cases heq : a.source = v
    · subst heq
      rw [hself] at hm
      have hold := h.pending _ _ hcount
      rw [List.countP_cons_of_pos (by simp)] at hold
      have hm := Option.some.inj hm
      dsimp only
      omega
    · rw [hother v heq] at hm
      have hold := h.pending _ _ hm
      rwa [List.countP_cons_of_neg (by simpa using heq)] at hold
  · have hold := h.listed v
    by_cases heq : a.source = v
    · subst heq
      -- The source was not due before, and is now if this was its last edge.
      rw [due_of_outgoing (outgoing_ne_nil ha), hcount] at hold
      rw [due_of_outgoing (outgoing_ne_nil ha), hself]
      cases n with
      | zero =>
        rw [if_pos rfl, List.append_assoc, List.singleton_append, List.perm_middle.count_eq,
          List.count_cons_self, hold]
        rfl
      | succ n => exact hold
    · rw [due_congr (f := f) (hother v heq), ← hold]
      split
      · rw [List.append_assoc, List.singleton_append, List.perm_middle.count_eq,
          List.count_cons_of_ne heq]
      · rfl

/-- Edges can be taken off one after the other, unless more has been taken from a source than it has
edges. -/
theorem Weighed.foldlM_relax {arcs : List Arc} (h : Weighed d sinks (arcs ++ left) f)
    (harcs : ∀ a ∈ arcs, a ∈ d.arcs) (hsources : ∀ a ∈ d.arcs, a.source < d.size) :
    (∃ f', arcs.foldlM Frontier.relax f = .ok f' ∧ Weighed d sinks left f' ∧ f'.order = f.order)
      ∨ (∃ e, arcs.foldlM Frontier.relax f = .error e)
        ∧ ∃ v, (d.outgoing v).length < taken d f.order v := by
  induction arcs generalizing f with
  | nil => exact .inl ⟨f, rfl, h, rfl⟩
  | cons a arcs ih =>
    obtain ⟨ha, harcs⟩ := List.forall_mem_cons.mp harcs
    obtain ⟨n, hcount⟩ : ∃ n, f.pending[a.source]? = some n :=
      ⟨_, Array.getElem?_eq_getElem (h.size ▸ hsources a ha)⟩
    rw [List.foldlM_cons]
    cases n with
    -- The count of its source is used up already, which means that the source was taken off more
    -- often than it has edges.
    | zero =>
      have htaken := h.pending _ _ hcount
      rw [List.cons_append, List.countP_cons_of_pos (by simp)] at htaken
      refine .inr ⟨⟨.overflow, ?_⟩, a.source, by omega⟩
      rw [Frontier.relax, hcount]
      rfl
    | succ n =>
      obtain ⟨f₁, hrelax, hweighed, horder⟩ := h.relax ha hcount
      rw [hrelax]
      rcases ih hweighed harcs with ⟨f₂, hrest, hleft, horder'⟩ | ⟨hrest, hover⟩
      · exact .inl ⟨f₂, hrest, hleft, horder'.trans horder⟩
      · exact .inr ⟨hrest, horder ▸ hover⟩

/-! ### One vertex -/

/-- Listing the next ready vertex keeps the account, unless more is taken than there is. In the
second case the run fails, and some vertex had too few edges for those listed. -/
theorem Weighed.step {v : Nat} {ready : List Nat} (h : Weighed d sinks [] f)
    (hsources : ∀ a ∈ d.arcs, a.source < d.size) (hready : f.ready = v :: ready) :
    (∃ f', f.step d = .ok f' ∧ Weighed d sinks [] f' ∧ f'.order = f.order ++ [v])
      ∨ (∃ e, f.step d = .error e)
        ∧ ∃ u, (d.outgoing u).length < taken d (f.order ++ [v]) u := by
  have hmoved : (ready ++ (f.order ++ [v])).Perm (f.ready ++ f.order) := by
    rw [hready, ← List.append_assoc]
    exact List.perm_append_singleton v (ready ++ f.order)
  -- Moved to the list, the vertex has all the edges that enter it still to be taken off.
  have hlisted : Weighed d sinks (d.incoming v ++ [])
      { f with ready := ready, order := f.order ++ [v] } := by
    refine ⟨h.size, fun u n hn => ?_, fun u => ?_⟩
    · have hold := h.pending u n hn
      rw [List.countP_nil, Nat.add_zero] at hold
      rw [List.append_nil, taken_concat, ← hold, Nat.add_assoc]
    · rw [hmoved.count_eq]
      exact h.listed u
  rw [Frontier.step, hready]
  exact hlisted.foldlM_relax (fun a ha => (List.mem_filter.mp ha).1) hsources

/-- Whatever is ready or listed is a vertex, and there are not more of them than vertices and
sinks. -/
theorem Weighed.bounded (h : Weighed d sinks left f) (hsinks : ∀ v ∈ sinks, v < d.size) :
    (∀ v ∈ f.ready ++ f.order, v < d.size)
      ∧ (f.ready ++ f.order).length ≤ sinks.length + d.size := by
  have hdue : ∀ v, due d sinks f v = true → v < d.size := by
    intro v hv
    rw [due] at hv
    split at hv
    · exact of_decide_eq_true (Bool.and_eq_true_iff.mp hv).1
    · exact h.size ▸ (Array.getElem?_eq_some_iff.mp (eq_of_beq hv)).1
  -- Sinks were listed once for being sinks; any vertex, once more when it became due.
  have hperm : (f.ready ++ f.order).Perm (sinks ++ (List.range d.size).filter (due d sinks f)) := by
    refine List.perm_iff_count.mpr fun v => ?_
    rw [h.listed v, List.count_append]
    congr 1
    cases hv : due d sinks f v with
    | true =>
      rw [List.count_filter hv, List.nodup_range.count, if_pos (List.mem_range.mpr (hdue v hv))]
      rfl
    | false =>
      rw [List.count_eq_zero.mpr fun hmem => ?_]
      · rfl
      · rw [(List.mem_filter.mp hmem).2] at hv
        cases hv
  constructor
  · intro v hv
    rcases List.mem_append.mp (hperm.mem_iff.mp hv) with hv | hv
    · exact hsinks v hv
    · exact hdue v (List.mem_filter.mp hv).2
  · rw [hperm.length_eq, List.length_append]
    have hle := List.length_filter_le (due d sinks f) (List.range d.size)
    rw [List.length_range] at hle
    omega

/-! ### The whole peeling -/

/-- At the start the edges of every vertex are counted in full, and nothing is listed. Ready are the
sinks and the other vertices that no edge leaves: a sink without edges is ready once and not twice.
-/
theorem weighed_start (d : Digraph) (sinks : List Nat) : Weighed d sinks [] (start d sinks) := by
  have hpending : ∀ v, (start d sinks).pending[v]?
      = if v < d.size then some (d.outgoing v).length else none := by
    intro v
    by_cases hv : v < d.size <;> simp [start, hv]
  refine ⟨by simp [start], fun v n hn => ?_, fun v => ?_⟩
  · rw [hpending] at hn
    split at hn
    · simp [taken, start, (Option.some.inj hn).symm]
    · cases hn
  -- Nothing is listed yet. Ready are the sinks, and the vertices without edges that are no sinks.
  · let leaves := (List.range d.size).filter fun v =>
      (start d sinks).pending[v]? == some 0 && !sinks.contains v
    have hleaf : due d sinks (start d sinks) v = true ↔ v ∈ leaves := by
      rw [List.mem_filter, List.mem_range, hpending, due, hpending]
      by_cases hv : v < d.size <;> by_cases hout : d.outgoing v = [] <;> simp [hv, hout]
    have hcount : leaves.count v = (due d sinks (start d sinks) v).toNat := by
      rw [List.Nodup.count (List.nodup_range.filter _)]
      by_cases hv : v ∈ leaves
      · rw [if_pos hv, hleaf.mpr hv]
        rfl
      · rw [if_neg hv, Bool.eq_false_iff.mpr (mt hleaf.mp hv)]
        rfl
    rw [show (start d sinks).order = [] from rfl, List.append_nil, ← hcount]
    exact List.count_append

/-- A peeling that goes on keeps the account, and lists a vertex at every step until none is
ready. -/
theorem Weighed.run_ok {n : Nat} (h : Weighed d sinks [] f)
    (hsources : ∀ a ∈ d.arcs, a.source < d.size) (hrun : run d n f = .ok f') :
    Weighed d sinks [] f' ∧ (f'.ready = [] ∨ f'.order.length = f.order.length + n) := by
  induction n generalizing f with
  | zero =>
    cases hrun
    exact ⟨h, .inr rfl⟩
  | succ n ih =>
    cases hready : f.ready with
    | nil =>
      rw [run_of_idle hready] at hrun
      cases hrun
      exact ⟨h, .inl hready⟩
    | cons v ready =>
      rw [Frontier.run] at hrun
      rcases h.step hsources hready with ⟨f₁, hstep, hweighed, horder⟩ | ⟨⟨e, hstep⟩, _⟩
      -- One vertex was listed, and the rest of the run lists the others.
      · rw [hstep] at hrun
        obtain ⟨hend, hlast⟩ := ih hweighed hrun
        refine ⟨hend, hlast.imp_right fun hlen => ?_⟩
        rw [hlen, horder, List.length_append, List.length_singleton]
        omega
      · rw [hstep] at hrun
        cases hrun

/-- A peeling that comes to its end has no vertex ready. -/
theorem complete_weighed (hsources : ∀ a ∈ d.arcs, a.source < d.size)
    (hsinks : ∀ v ∈ sinks, v < d.size) (hrun : complete d sinks = .ok f) :
    Weighed d sinks [] f ∧ f.ready = [] := by
  obtain ⟨hweighed, hend⟩ := (weighed_start d sinks).run_ok hsources hrun
  refine ⟨hweighed, ?_⟩
  rcases hend with hidle | hlen
  · exact hidle
  · have hle := (hweighed.bounded hsinks).2
    rw [List.length_append] at hle
    exact List.length_eq_zero_iff.mp (by omega)

/-- In the end the account is one of the list alone. -/
theorem Weighed.count_order (h : Weighed d sinks [] f) (hidle : f.ready = []) (v : Nat) :
    f.order.count v = sinks.count v + (due d sinks f v).toNat := by
  have hlisted := h.listed v
  rwa [hidle, List.nil_append] at hlisted

/-- A vertex is due if the targets of all its edges are listed. -/
theorem Weighed.due_of_targets {v : Nat} (h : Weighed d sinks [] f) (hv : v < d.size)
    (hnew : v ∉ sinks ∨ d.outgoing v ≠ []) (htargets : ∀ a ∈ d.outgoing v, a.target ∈ f.order) :
    due d sinks f v = true := by
  by_cases hout : d.outgoing v = []
  · have hnew := hnew.resolve_right (not_not.mpr hout)
    simp [due, hout, hv, hnew]
  · have hcount := Array.getElem?_eq_getElem (h.size ▸ hv : v < f.pending.size)
    have htaken := h.pending _ _ hcount
    have hle := length_le_taken htargets
    rw [List.countP_nil] at htaken
    rw [due_of_outgoing hout, hcount, beq_iff_eq, Option.some_inj]
    omega

/-- If the vertices can be made to descend, then all of them are listed in the end. By induction
along the descending list: a vertex whose successors are listed was ready at some time, and nothing
is ready in the end. -/
theorem Weighed.mem_order {vs : List Nat} (h : Weighed d sinks [] f) (hidle : f.ready = [])
    (htargets : ∀ a ∈ d.arcs, a.target < d.size) (hdescends : d.Descends vs)
    (hall : ∀ v < d.size, v ∈ vs) : ∀ v < d.size, v ∈ f.order := by
  have hevery : ∀ v ∈ vs, v < d.size → v ∈ f.order :=
    hdescends.induction fun v _ hbelow hv => by
      have hlisted : ∀ a ∈ d.outgoing v, a.target ∈ f.order := fun a ha => by
        obtain ⟨harc, hsource⟩ := Search.mem_outgoing.mp ha
        exact hbelow a harc hsource (htargets a harc)
      rw [← List.count_pos_iff, h.count_order hidle]
      by_cases hsink : v ∈ sinks
      · exact Nat.add_pos_left (List.count_pos_iff.mpr hsink) _
      · rw [h.due_of_targets hv (.inl hsink) hlisted]
        exact Nat.succ_pos _
  exact fun v hv => hevery v (hall v hv) hv

/-- Peeling stops if edges both enter and leave one of the sinks. It would be listed twice, first
for being a sink and then for having lost its edges, and an edge that leads to it would be taken off
its source twice. If peeling came to its end then more edges would have been taken off that source
than leave it. -/
theorem complete_error {vs : List Nat} {v : Nat} (hsources : ∀ a ∈ d.arcs, a.source < d.size)
    (htargets : ∀ a ∈ d.arcs, a.target < d.size) (hsinks : ∀ v ∈ sinks, v < d.size)
    (hdescends : d.Descends vs) (hall : ∀ v < d.size, v ∈ vs) (hv : v ∈ sinks)
    (hinner : d.Inner v) :
    ∃ e, complete d sinks = .error e := by
  cases hrun : complete d sinks with
  | error e => exact ⟨e, rfl⟩
  | ok f =>
    exfalso
    obtain ⟨h, hidle⟩ := complete_weighed hsources hsinks hrun
    obtain ⟨⟨a, ha, rfl⟩, b, hb, hsource⟩ := hinner
    have hmem := h.mem_order hidle htargets hdescends hall
    have hlisted : ∀ u, ∀ a ∈ d.outgoing u, a.target ∈ f.order := fun u a ha =>
      hmem a.target (htargets a (Search.mem_outgoing.mp ha).1)
    -- The sink is listed for being one, and again when its edges have been taken off.
    have htwice : 1 < f.order.count a.target := by
      have hdue := h.due_of_targets (htargets a ha)
        (.inr (hsource ▸ outgoing_ne_nil hb)) (hlisted _)
      have hone := List.count_pos_iff.mpr hv
      rw [h.count_order hidle, hdue]
      show 1 < sinks.count a.target + 1
      omega
    -- The source of an edge that enters it then has more taken than there is.
    have hlt := length_lt_taken (hlisted a.source)
      ⟨a, Search.mem_outgoing.mpr ⟨ha, rfl⟩, htwice⟩
    have hcount := Array.getElem?_eq_getElem (h.size ▸ hsources a ha : a.source < f.pending.size)
    have htaken := h.pending _ _ hcount
    rw [List.countP_nil] at htaken
    omega

/-! ### Where peeling goes well -/

/-- Where no edges both enter and leave a sink, nothing that edges lead to is listed twice. Sinks
are ready in the beginning, and would be ready once more if they had edges to be taken off. -/
theorem Weighed.count_target (h : Weighed d sinks left f) (hnodup : sinks.Nodup)
    (hends : ∀ v ∈ sinks, ¬ d.Inner v) {a : Arc} (ha : a ∈ d.arcs) :
    (f.ready ++ f.order).count a.target ≤ 1 := by
  rw [h.listed]
  by_cases hsink : a.target ∈ sinks
  · have hout : d.outgoing a.target = [] := by
      refine List.eq_nil_iff_forall_not_mem.mpr fun b hb => ?_
      obtain ⟨hb, hsource⟩ := Search.mem_outgoing.mp hb
      exact hends _ hsink ⟨⟨a, ha, rfl⟩, b, hb, hsource⟩
    rw [show due d sinks f a.target = false by simp [due, hout, hsink]]
    rw [hnodup.count, if_pos hsink]
    exact Nat.le_refl 1
  · rw [List.count_eq_zero.mpr hsink, Nat.zero_add]
    exact Bool.toNat_le _

/-- The account of a peeling that goes well: but for sinks, vertices come behind the targets of all
their edges. -/
structure Clear (d : Digraph) (sinks : List Nat) (f : Frontier) : Prop where
  weighed : Weighed d sinks [] f
  descends : (d.endingAt sinks).Descends f.order.reverse

/-- A vertex that is ready, but not as a sink, has all its edges to listed vertices. This needs that
no target is listed twice: the count of the vertex only says how many were taken off, not which. -/
theorem Weighed.targets_of_ready {v : Nat} (h : Weighed d sinks [] f)
    (honce : ∀ a ∈ d.arcs, (f.ready ++ f.order).count a.target ≤ 1) (hv : v ∈ f.ready)
    (hsink : v ∉ sinks) : ∀ a ∈ d.outgoing v, a.target ∈ f.order := by
  by_cases hout : d.outgoing v = []
  · rw [hout]
    exact nofun
  -- The vertex is ready without being a sink, so its count has come down to zero; as no target was
  -- listed twice, each of them was listed.
  · have hlisted := h.listed v
    rw [due_of_outgoing hout, List.count_eq_zero.mpr hsink, Nat.zero_add] at hlisted
    have hpos := List.count_pos_iff.mpr (List.mem_append_left f.order hv)
    rw [hlisted] at hpos
    have hcount : f.pending[v]? = some 0 := by
      cases hzero : f.pending[v]? == some 0 with
      | true => exact eq_of_beq hzero
      | false =>
        rw [hzero] at hpos
        cases hpos
    have htaken := h.pending _ _ hcount
    rw [List.countP_nil, Nat.zero_add, Nat.add_zero] at htaken
    refine mem_of_taken (fun a ha => ?_) htaken
    have hle := honce a (Search.mem_outgoing.mp ha).1
    rw [List.count_append] at hle
    omega

/-- While no sink has edges both ways, a step of peeling succeeds, and the frontier stays clear. No
vertex is listed twice then, so that no more is taken off a vertex than there are edges, and what is
ready has all its targets listed. -/
theorem Clear.step {v : Nat} {ready : List Nat} (h : Clear d sinks f)
    (hsources : ∀ a ∈ d.arcs, a.source < d.size) (hnodup : sinks.Nodup)
    (hends : ∀ v ∈ sinks, ¬ d.Inner v) (hready : f.ready = v :: ready) :
    ∃ f', f.step d = .ok f' ∧ Clear d sinks f' := by
  have honce : ∀ a ∈ d.arcs, (f.ready ++ f.order).count a.target ≤ 1 := fun a ha =>
    h.weighed.count_target hnodup hends ha
  rcases h.weighed.step hsources hready with ⟨f', hstep, hweighed, horder⟩ | ⟨_, u, hover⟩
  · refine ⟨f', hstep, hweighed, ?_⟩
    rw [horder, List.reverse_append]
    refine ⟨fun a ha hsource => List.mem_reverse.mpr ?_, h.descends⟩
    obtain ⟨ha, hnew⟩ := mem_endingAt.mp ha
    exact h.weighed.targets_of_ready honce (hready ▸ List.mem_cons_self) (hsource ▸ hnew) a
      (Search.mem_outgoing.mpr ⟨ha, hsource⟩)
  · -- Listing the vertex only moves it, so that no target is listed twice then.
    exfalso
    refine Nat.not_lt_of_le (taken_le_length fun a ha => ?_) hover
    have hle := honce a (Search.mem_outgoing.mp ha).1
    rw [hready, List.cons_append, List.count_cons, List.count_append] at hle
    rw [List.count_append, List.count_singleton]
    omega

/-- Peeling goes on as long as a vertex is ready. It never fails, as no vertex is listed twice. -/
theorem Clear.run {n : Nat} (h : Clear d sinks f) (hsources : ∀ a ∈ d.arcs, a.source < d.size)
    (hnodup : sinks.Nodup) (hends : ∀ v ∈ sinks, ¬ d.Inner v) :
    ∃ f', run d n f = .ok f' ∧ Clear d sinks f' := by
  induction n generalizing f with
  | zero => exact ⟨f, rfl, h⟩
  | succ n ih =>
    cases hready : f.ready with
    | nil => exact ⟨f, run_of_idle hready _, h⟩
    | cons v ready =>
      obtain ⟨f₁, hstep, hclear⟩ := h.step hsources hnodup hends hready
      obtain ⟨f₂, hrun, hend⟩ := ih hclear
      refine ⟨f₂, ?_, hend⟩
      rw [Frontier.run, hstep]
      exact hrun

/-- Peeling goes well if no edges both enter and leave a sink. It lists the vertices, and all of
them if they can be made to descend, but for sinks behind the targets of their edges. -/
theorem complete_total {vs : List Nat} (hsources : ∀ a ∈ d.arcs, a.source < d.size)
    (htargets : ∀ a ∈ d.arcs, a.target < d.size) (hnodup : sinks.Nodup)
    (hsinks : ∀ v ∈ sinks, v < d.size) (hdescends : d.Descends vs) (hall : ∀ v < d.size, v ∈ vs)
    (hends : ∀ v ∈ sinks, ¬ d.Inner v) :
    ∃ f, complete d sinks = .ok f ∧ (d.endingAt sinks).Descends f.order.reverse
      ∧ ∀ v, v ∈ f.order ↔ v < d.size := by
  have hstart : Clear d sinks (start d sinks) := ⟨weighed_start d sinks, trivial⟩
  obtain ⟨f, hrun, hclear⟩ := hstart.run hsources hnodup hends
  obtain ⟨hweighed, hidle⟩ := complete_weighed hsources hsinks hrun
  refine ⟨f, hrun, hclear.descends, fun v => ⟨fun hv => ?_, ?_⟩⟩
  · exact (hweighed.bounded hsinks).1 v (List.mem_append_right _ hv)
  · exact hweighed.mem_order hidle htargets hdescends hall v

end Frontier

end TxnPath
