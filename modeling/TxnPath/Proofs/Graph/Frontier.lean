import TxnPath.Proofs.Graph.Search

/-!
# `TxnPath.Proofs.Graph.Frontier`: peeling lists every vertex

Peeling keeps, per vertex, a count of the edges whose targets it has not listed. The counts
are right throughout (`Frontier.Counted`), so that taking an edge off its source never fails
and a vertex is ready exactly when all its edges lead to listed vertices. What is listed
therefore descends when it is read backwards.

`complete_ok` says that on a shape whose vertices can be made to descend at all, peeling
leaves none out.
-/

set_option autoImplicit false

namespace TxnPath

namespace Frontier

variable {d : Digraph} {f : Frontier}

/-- The edges that lead to vertices not yet listed. -/
def unlisted (d : Digraph) (order : List Nat) : List Arc :=
  d.arcs.filter fun a => !order.contains a.target

/-- The invariant within a step: `left` are the edges that have not been taken off. Each
vertex has its own of them counted, and is ready or listed exactly when it has none. -/
structure Counted (d : Digraph) (left : List Arc) (f : Frontier) : Prop where
  size : f.pending.size = d.size
  pending : ∀ v < d.size, f.pending[v]? = some (left.countP fun a => a.source == v)
  nodup : (f.ready ++ f.order).Nodup
  mem : ∀ v, v ∈ f.ready ++ f.order ↔ v < d.size ∧ ∀ a ∈ left, a.source ≠ v

/-- The order in which the edges are counted does not matter. -/
theorem Counted.perm {left left' : List Arc} (h : Counted d left f) (hperm : left.Perm left') :
    Counted d left' f where
  size := h.size
  pending := fun v hv => by rw [h.pending v hv, hperm.countP_eq]
  nodup := h.nodup
  mem := fun v => by
    rw [h.mem v]
    exact and_congr_right fun _ => forall_congr' fun a => imp_congr_left hperm.mem_iff

/-- Taking an edge off lowers the count of its source. -/
theorem relax_ok {a : Arc} {n : Nat} (h : f.pending[a.source]? = some (n + 1)) :
    f.relax a = .ok { f with
      pending := f.pending.setIfInBounds a.source n
      ready := if n = 0 then f.ready ++ [a.source] else f.ready } := by
  rw [Frontier.relax, h]

/-- An edge can be taken off its source, which becomes ready with its last one. It was not ready
before, and so is not listed twice. -/
theorem Counted.relax {a : Arc} {left : List Arc} (h : Counted d (a :: left) f)
    (hsource : a.source < d.size) :
    ∃ f', f.relax a = .ok f' ∧ Counted d left f' ∧ f'.order = f.order := by
  have hcount := h.pending a.source hsource
  rw [List.countP_cons_of_pos (by simp)] at hcount
  -- The source was not ready before, as it still had this edge.
  have hnew : a.source ∉ f.ready ++ f.order := fun hmem =>
    ((h.mem _).mp hmem).2 a List.mem_cons_self rfl
  have hpending : ∀ v < d.size, (f.pending.setIfInBounds a.source
      (left.countP fun b => b.source == a.source))[v]?
        = some (left.countP fun b => b.source == v) := by
    intro v hv
    rw [Array.getElem?_setIfInBounds, h.size]
    by_cases heq : a.source = v
    · rw [if_pos heq, if_pos hsource, heq]
    · rw [if_neg heq, h.pending v hv, List.countP_cons_of_neg (by simpa using heq)]
  refine ⟨_, relax_ok hcount, ?_, rfl⟩
  by_cases hlast : (left.countP fun b => b.source == a.source) = 0
  -- This was the last edge of its source.
  · rw [if_pos hlast]
    have hperm : (f.ready ++ [a.source] ++ f.order).Perm (a.source :: (f.ready ++ f.order)) := by
      rw [List.append_assoc]
      exact List.perm_middle
    have hnone : ∀ b ∈ left, b.source ≠ a.source := by
      simpa [List.countP_eq_zero] using hlast
    refine ⟨by simp [h.size], hpending,
      hperm.nodup_iff.mpr (List.nodup_cons.mpr ⟨hnew, h.nodup⟩), fun v => ?_⟩
    rw [hperm.mem_iff, List.mem_cons, h.mem v, List.forall_mem_cons]
    constructor
    · rintro (rfl | ⟨hv, _, hleft⟩)
      · exact ⟨hsource, hnone⟩
      · exact ⟨hv, hleft⟩
    · rintro ⟨hv, hleft⟩
      by_cases heq : v = a.source
      · exact .inl heq
      · exact .inr ⟨hv, Ne.symm heq, hleft⟩
  -- The source has other edges left, and waits.
  · rw [if_neg hlast]
    obtain ⟨b, hb, hsame⟩ : ∃ b ∈ left, b.source = a.source := by
      simpa [List.countP_eq_zero] using hlast
    refine ⟨by simp [h.size], hpending, h.nodup, fun v => ?_⟩
    rw [h.mem v, List.forall_mem_cons]
    refine and_congr_right fun _ => ⟨fun hleft => hleft.2, fun hleft => ⟨?_, hleft⟩⟩
    exact hsame ▸ hleft b hb

/-- Several edges can be taken off, one after the other. -/
theorem Counted.foldlM_relax {arcs left : List Arc} (h : Counted d (arcs ++ left) f)
    (hsources : ∀ a ∈ arcs, a.source < d.size) :
    ∃ f', arcs.foldlM Frontier.relax f = .ok f' ∧ Counted d left f' ∧ f'.order = f.order := by
  induction arcs generalizing f with
  | nil => exact ⟨f, rfl, h, rfl⟩
  | cons a arcs ih =>
    obtain ⟨ha, harcs⟩ := List.forall_mem_cons.mp hsources
    obtain ⟨f₁, hrelax, hcounted, horder⟩ := h.relax ha
    obtain ⟨f₂, hrest, hleft, horder'⟩ := ih hcounted harcs
    refine ⟨f₂, ?_, hleft, horder'.trans horder⟩
    rw [List.foldlM_cons, hrelax]
    exact hrest

/-- The invariant between steps: the counts are those of edges to vertices not yet listed,
and the list descends backwards. -/
structure Peeled (d : Digraph) (f : Frontier) : Prop where
  counted : Counted d (unlisted d f.order) f
  descends : d.Descends f.order.reverse

/-- A vertex that is ready or listed has all its edges to listed vertices. -/
theorem Peeled.mem_iff (h : Peeled d f) {v : Nat} :
    v ∈ f.ready ++ f.order
      ↔ v < d.size ∧ ∀ a ∈ d.arcs, a.source = v → a.target ∈ f.order := by
  rw [h.counted.mem v]
  refine and_congr_right fun _ => ⟨fun hnone a ha hsource => ?_, fun hall a ha hsource => ?_⟩
  · refine Decidable.byContradiction fun hnew => ?_
    exact hnone a (by simp [unlisted, ha, hnew]) hsource
  · obtain ⟨harc, hnew⟩ : a ∈ d.arcs ∧ a.target ∉ f.order := by simpa [unlisted] using ha
    exact hnew (hall a harc hsource)

/-- Listing a vertex takes off exactly the edges that enter it. Those are the ones that were counted
as pending at their sources because of this vertex. -/
theorem unlisted_perm {order : List Nat} {v : Nat} (hnew : v ∉ order) :
    (unlisted d order).Perm (d.incoming v ++ unlisted d (order ++ [v])) := by
  have hsplit := (List.filter_append_perm (fun a => a.target == v) (unlisted d order)).symm
  have hinto : (unlisted d order).filter (fun a => a.target == v) = d.incoming v := by
    rw [unlisted, List.filter_filter]
    refine List.filter_congr fun a _ => ?_
    by_cases ha : a.target = v
    · simp [ha, hnew]
    · simp [ha]
  have hrest : (unlisted d order).filter (fun a => !(a.target == v))
      = unlisted d (order ++ [v]) := by
    rw [unlisted, List.filter_filter]
    refine List.filter_congr fun a _ => ?_
    rw [Bool.eq_iff_iff]
    simp [and_comm]
  rwa [hinto, hrest] at hsplit

/-- A step lists the next ready vertex and keeps the invariant. All edges of the vertex lead to
listed ones, which come after it in the list read backwards; the edges that enter it are taken off
their sources. -/
theorem Peeled.step {v : Nat} {ready : List Nat} (h : Peeled d f)
    (hsources : ∀ a ∈ d.arcs, a.source < d.size) (hready : f.ready = v :: ready) :
    ∃ f', f.step d = .ok f' ∧ Peeled d f' ∧ f'.order = f.order ++ [v] := by
  have hnodup := h.counted.nodup
  rw [hready, List.cons_append, List.nodup_cons, List.mem_append, not_or] at hnodup
  have hmoved : (ready ++ (f.order ++ [v])).Perm (f.ready ++ f.order) := by
    rw [hready, ← List.append_assoc]
    exact List.perm_append_singleton v (ready ++ f.order)
  -- Listing the vertex alone changes no count; then the edges that enter it are taken off.
  have hlisted : Counted d (unlisted d f.order)
      { f with ready := ready, order := f.order ++ [v] } :=
    ⟨h.counted.size, h.counted.pending, hmoved.nodup_iff.mpr h.counted.nodup,
      fun u => hmoved.mem_iff.trans (h.counted.mem u)⟩
  obtain ⟨f', hfold, hcounted, horder⟩ :=
    (hlisted.perm (unlisted_perm hnodup.1.2)).foldlM_relax fun a ha =>
      hsources a (List.mem_filter.mp ha).1
  refine ⟨f', ?_, ⟨?_, ?_⟩, horder⟩
  · rw [Frontier.step, hready]
    exact hfold
  · rw [horder]
    exact hcounted
  · rw [horder, List.reverse_append]
    refine ⟨fun a ha hsource => List.mem_reverse.mpr ?_, h.descends⟩
    exact (h.mem_iff.mp (hready ▸ List.mem_cons_self)).2 a ha hsource

/-- Without a ready vertex nothing happens. -/
theorem run_of_idle (hready : f.ready = []) (n : Nat) : run d n f = .ok f := by
  induction n with
  | zero => rfl
  | succ n ih =>
    rw [Frontier.run, Frontier.step, hready]
    exact ih

/-- Every step lists a vertex, until none is ready. With as much room as there are vertices, the run
ends because none is ready. -/
theorem Peeled.run {n : Nat} (h : Peeled d f) (hsources : ∀ a ∈ d.arcs, a.source < d.size) :
    ∃ f', run d n f = .ok f' ∧ Peeled d f'
      ∧ (f'.ready = [] ∨ f'.order.length = f.order.length + n) := by
  induction n generalizing f with
  | zero => exact ⟨f, rfl, h, .inr rfl⟩
  | succ n ih =>
    cases hready : f.ready with
    | nil => exact ⟨f, run_of_idle hready _, h, .inl hready⟩
    | cons v ready =>
      obtain ⟨f₁, hstep, hpeeled₁, horder⟩ := h.step hsources hready
      obtain ⟨f₂, hrun, hpeeled₂, hend⟩ := ih hpeeled₁
      refine ⟨f₂, ?_, hpeeled₂, hend.imp_right fun hlen => ?_⟩
      · rw [Frontier.run, hstep]
        exact hrun
      · rw [hlen, horder, List.length_append, List.length_singleton]
        omega

/-- At the start no vertex is listed, and those without edges are ready: the sinks, which no edge
leaves, and whatever else has none. -/
theorem peeled_start {sinks : List Nat} (hnodup : sinks.Nodup)
    (hsinks : ∀ v ∈ sinks, v < d.size ∧ ∀ a ∈ d.arcs, a.source ≠ v) :
    Peeled d (start d sinks) := by
  have hpending : ∀ v < d.size,
      (start d sinks).pending[v]? = some (d.arcs.countP fun a => a.source == v) := by
    intro v hv
    rw [List.countP_eq_length_filter]
    simp [start, Digraph.outgoing, hv]
  -- Next to the sinks, the vertices without edges are ready from the start.
  have hleaf : ∀ v, v ∈ (List.range d.size).filter (fun v =>
      (start d sinks).pending[v]? == some 0 && !sinks.contains v)
        ↔ (v < d.size ∧ ∀ a ∈ d.arcs, a.source ≠ v) ∧ v ∉ sinks := by
    intro v
    rw [List.mem_filter, List.mem_range, and_assoc]
    refine and_congr_right fun hv => ?_
    rw [hpending v hv]
    simp [List.countP_eq_zero]
  have hunlisted : unlisted d (start d sinks).order = d.arcs :=
    List.filter_eq_self.mpr fun _ _ => rfl
  refine ⟨?_, trivial⟩
  rw [hunlisted]
  refine ⟨by simp [start], hpending, ?_, fun v => ?_⟩
  · rw [show (start d sinks).order = [] from rfl, List.append_nil]
    refine List.nodup_append.mpr ⟨hnodup, List.nodup_range.filter _, fun u hu v hv heq => ?_⟩
    exact ((hleaf v).mp hv).2 (heq ▸ hu)
  · rw [show (start d sinks).order = [] from rfl, List.append_nil]
    refine List.mem_append.trans ((or_congr_right (hleaf v)).trans ?_)
    constructor
    · rintro (hv | ⟨hv, _⟩)
      · exact hsinks v hv
      · exact hv
    · intro hv
      by_cases hsink : v ∈ sinks
      · exact .inl hsink
      · exact .inr ⟨hv, hsink⟩

/-- The whole peeling: if the vertices can be listed so that they descend, then peeling goes on
until no vertex is ready, and lists each of them once, in an order that descends when it is read
backwards. -/
theorem complete_ok {sinks vs : List Nat} (hsources : ∀ a ∈ d.arcs, a.source < d.size)
    (htargets : ∀ a ∈ d.arcs, a.target < d.size) (hnodup : sinks.Nodup)
    (hsinks : ∀ v ∈ sinks, v < d.size ∧ ∀ a ∈ d.arcs, a.source ≠ v)
    (hdescends : d.Descends vs) (hall : ∀ v < d.size, v ∈ vs) :
    ∃ f, complete d sinks = .ok f ∧ f.ready = [] ∧ d.Descends f.order.reverse ∧ f.order.Nodup
      ∧ ∀ v, v ∈ f.order ↔ v < d.size := by
  obtain ⟨f, hrun, hpeeled, hend⟩ := (peeled_start hnodup hsinks).run
    (n := d.size + sinks.length + d.arcs.length) hsources
  have hidle : f.ready = [] := by
    rcases hend with hidle | hlen
    · exact hidle
    · have hsub : f.ready ++ f.order ⊆ List.range d.size := fun v hv =>
        List.mem_range.mpr ((hpeeled.counted.mem v).mp hv).1
      have hle := hpeeled.counted.nodup.length_le_of_subset hsub
      rw [List.length_append, List.length_range] at hle
      exact List.length_eq_zero_iff.mp (by omega)
  have hlisted : ∀ {v}, v ∈ f.order
      ↔ v < d.size ∧ ∀ a ∈ d.arcs, a.source = v → a.target ∈ f.order := by
    intro v
    rw [← hpeeled.mem_iff, hidle, List.nil_append]
  have hnodup' := hpeeled.counted.nodup
  rw [hidle, List.nil_append] at hnodup'
  -- From the end of a descending list on, all edges lead to listed vertices.
  have hevery : ∀ vs, d.Descends vs → ∀ v ∈ vs, v < d.size → v ∈ f.order := by
    intro vs hvs
    induction vs with
    | nil => exact nofun
    | cons u rest ih =>
      rw [List.forall_mem_cons]
      refine ⟨fun hu => hlisted.mpr ⟨hu, fun a ha hsource => ?_⟩, ih hvs.2⟩
      exact ih hvs.2 a.target (hvs.1 a ha hsource) (htargets a ha)
  refine ⟨f, hrun, hidle, hpeeled.descends, hnodup', fun v => ?_⟩
  exact ⟨fun hv => (hlisted.mp hv).1, fun hv => hevery vs hdescends v (hall v hv) hv⟩

end Frontier

end TxnPath
