import Mathlib
import TxnPath.Graph.Sanity
import TxnPath.Proofs.Graph.Route

/-!
# `TxnPath.Proofs.Graph.PathSums`: what derived probabilities mean

Over exact rationals, every derived probability is a sum over routes. `Graph.PathMeaning`
lists them: the routes that end at ABORT, those that stay at the base partition, those that
do not touch a partition, and those up to the first write of a partition. The probability of
only reading is zero everywhere, for nothing ever makes it more at a vertex than at its
successors.

`Initialized.derive_path_sums` says that deriving succeeds on every initialized graph whose
COMMIT and ABORT no edge leaves, with cycles or without, and that the tables then have this
meaning. If in addition the edges that leave a vertex never weigh more than one together,
all values are probabilities, and a partition is not done and written at once
(`Graph.Bounded`).

A table enters these proofs through `Graph.Equations` alone, in which a vertex at which
paths end is not a case of its own any more.
-/

set_option autoImplicit false

namespace TxnPath

/-- Whether a call writes a partition. -/
def Vertex.writes {R : Type} (x : Vertex R) (p : Nat) : Bool := x.touches p && !x.isReadOnly

namespace Graph

variable {g : Graph Rat} {skipped : List Nat} {v : Nat} {x : Vertex Rat}

/-! ### The first step of every value
-/

/-- The probability of staying at the base partition; nothing is read as zero, here and below. -/
def singleAt (g : Graph Rat) (v : Nat) : Rat := (g.table v).single.getD 0

/-- The probability of aborting. -/
def abortAt (g : Graph Rat) (v : Nat) : Rat := (g.table v).abort.getD 0

/-- The probability in one field about one partition. -/
def entryAt (g : Graph Rat) (field : PartitionField) (p v : Nat) : Rat :=
  ((g.table v).get? field p).getD 0

/-- A vertex's values are those of its ends, weighted, and what the vertex adds itself. The ends are
those of the edges that are not skipped. Whether a vertex passes on what its ends have, and whether
it adds one, depends on its kind and its call. -/
structure Equations (g : Graph Rat) (skipped : List Nat) (v : Nat) (x : Vertex Rat) : Prop where
  ends : x.kind.isTerminal = true → g.kept skipped v = []
  single : g.singleAt v = (if x.kind.isTerminal then 1 else 0)
    + if !x.isRemote g.base then g.expected skipped g.singleAt v else 0
  abort : g.abortAt v = (if x.kind == .abort then 1 else 0)
    + if true then g.expected skipped g.abortAt v else 0
  done : ∀ p < g.partitions, g.entryAt .done p v = (if x.kind.isTerminal then 1 else 0)
    + if !x.touches p then g.expected skipped (g.entryAt .done p) v else 0
  write : ∀ p < g.partitions, g.entryAt .write p v = (if x.writes p then 1 else 0)
    + if !x.writes p then g.expected skipped (g.entryAt .write p) v else 0
  readOnly : ∀ p < g.partitions, g.entryAt .readOnly p v
    = if x.writes p then 0 else g.expected skipped (g.entryAt .readOnly p) v

/-- The weighted sum over the successors of a vertex is the one over its edges. The program adds up
from the left, beginning with zero. -/
theorem weighted_keptSuccessors (value : Successor Rat → Rat) (val : Nat → Rat)
    (h : ∀ e, value (g.successor e) = val e.target) :
    Successor.weighted (g.keptSuccessors skipped v) value = g.expected skipped val v := by
  have hfold : ∀ (es : List (Edge Rat × Nat)) (acc : Rat),
      (es.map fun e => g.successor e.1).foldl (fun acc s => acc + s.weight * value s) acc
        = acc + (es.map fun e => e.1.probability * val e.1.target).sum := by
    intro es
    induction es with
    | nil => intro acc; exact (add_zero acc).symm
    | cons e es ih =>
      intro acc
      rw [List.map_cons, List.foldl_cons, ih, List.map_cons, List.sum_cons, h, add_assoc]
      rfl
  exact (hfold _ 0).trans (zero_add _)

/-- What a successor says about a partition is what its table says. -/
theorem outlook_successor (e : Edge Rat) {p : Nat} (hp : p < g.partitions) :
    (g.successor e).outlook p = (g.table e.target).outlook p := by
  simp [Successor.outlook, successor, hp]

/-- A vertex at which paths end touches nothing. -/
theorem untouched (h : x.kind.isTerminal = true) (p base : Nat) :
    x.touches p = false ∧ x.isRemote base = false := by
  rw [Vertex.touches, Vertex.isRemote]
  cases hkind : x.kind with
  | start => exact ⟨rfl, rfl⟩
  | commit => exact ⟨rfl, rfl⟩
  | abort => exact ⟨rfl, rfl⟩
  | query c => rw [hkind] at h; cases h

/-- Where paths end, the table has fixed values: the transaction is single-sited and done
everywhere, and aborts only at ABORT. -/
theorem tableFrom_end (h : x.kind.isTerminal = true) (base n : Nat)
    (succs : List (Successor Rat)) :
    x.tableFrom base n succs
      = .complete 1 (if x.kind == .abort then 1 else 0) n fun _ => ⟨1, 0, 0⟩ := by
  rw [Vertex.tableFrom]
  cases hkind : x.kind with
  | start => rw [hkind] at h; cases h
  | commit => rfl
  | abort => rfl
  | query c => rw [hkind] at h; cases h

/-- Elsewhere the table is an average over the successors, weighed by the probabilities of the
edges; leaving the base partition rules a single-sited transaction out. -/
theorem tableFrom_inner (h : x.kind.isTerminal = false) (base n : Nat)
    (succs : List (Successor Rat)) :
    x.tableFrom base n succs
      = .complete (if x.isRemote base then 0 else Successor.weighted succs Successor.single)
          (Successor.weighted succs Successor.abort) n (x.outlookFrom succs) := by
  rw [Vertex.tableFrom]
  cases hkind : x.kind with
  | start => rfl
  | commit => rw [hkind] at h; cases h
  | abort => rw [hkind] at h; cases h
  | query c => rfl

/-- The entries of a table with every entry set. -/
theorem entryAt_complete {single abort : Rat} {outlook : Nat → PartitionOutlook Rat}
    (h : g.table v = .complete single abort g.partitions outlook) {p : Nat}
    (hp : p < g.partitions) :
    g.entryAt .done p v = (outlook p).done ∧ g.entryAt .readOnly p v = (outlook p).readOnly
      ∧ g.entryAt .write p v = (outlook p).write := by
  obtain ⟨hdone, hreadOnly, hwrite⟩ := ProbabilityTable.get?_complete single abort outlook hp
  rw [entryAt, entryAt, entryAt, h, hdone, hreadOnly, hwrite]
  exact ⟨rfl, rfl, rfl⟩

/-- The equations at a vertex at which paths end: it adds what it is, and nothing follows. The sums
over its edges are empty, so that single is one, and abort is one at ABORT and zero at COMMIT. -/
theorem equations_of_end (hx : g.vertices[v]? = some x) (h : g.LocallySettled skipped v)
    (hterminal : x.kind.isTerminal = true) (hends : g.kept skipped v = []) :
    Equations g skipped v x := by
  have htable := ((table_eq hx).trans (h x hx)).trans (tableFrom_end hterminal ..)
  have hnothing : ∀ val, g.expected skipped val v = 0 := fun val => by rw [expected, hends]; rfl
  have hwrites : ∀ p, x.writes p = false := fun p => by
    rw [Vertex.writes, (untouched hterminal p g.base).1, Bool.false_and]
  refine {
    ends := fun _ => hends
    single := ?_
    abort := ?_
    done := fun p hp => ?_
    write := fun p hp => ?_
    readOnly := fun p hp => ?_ }
  · rw [singleAt, htable, hterminal, hnothing]
    simp [ProbabilityTable.complete]
  · rw [abortAt, htable, hnothing]
    simp [ProbabilityTable.complete]
  -- Nothing is written at the end of a path, and there are no successors to average over.
  · rw [(entryAt_complete htable hp).1, hterminal, hnothing]
    simp
  · rw [(entryAt_complete htable hp).2.2, hwrites, hnothing]
    simp
  · rw [(entryAt_complete htable hp).2.1, hwrites, hnothing]
    simp

/-- The equations at a vertex that paths go on from. Each entry is a sum over the edges that are
kept, weighted with their probabilities, unless what the vertex itself does at the partition decides
it. -/
theorem equations_of_inner (hx : g.vertices[v]? = some x) (h : g.LocallySettled skipped v)
    (hinner : x.kind.isTerminal = false) : Equations g skipped v x := by
  have htable := ((table_eq hx).trans (h x hx)).trans (tableFrom_inner hinner ..)
  have habort : (x.kind == .abort) = false := by
    cases hkind : x.kind with
    | start => rfl
    | commit => rfl
    | abort => rw [hkind] at hinner; cases hinner
    | query c => rfl
  -- The sums in an outlook are those over the edges, field by field.
  have hsum : ∀ (field : PartitionOutlook Rat → Rat) (f : PartitionField) p, p < g.partitions →
      (∀ u, field ((g.table u).outlook p) = g.entryAt f p u) →
      Successor.weighted (g.keptSuccessors skipped v) (fun s => field (s.outlook p))
        = g.expected skipped (g.entryAt f p) v := fun field f p hp hfield =>
    weighted_keptSuccessors _ _ fun e => by rw [outlook_successor e hp, hfield]
  refine {
    ends := fun hend => absurd (hinner.symm.trans hend) Bool.false_ne_true
    single := ?_
    abort := ?_
    done := fun p hp => ?_
    write := fun p hp => ?_
    readOnly := fun p hp => ?_ }
  · rw [singleAt, htable, hinner, weighted_keptSuccessors _ g.singleAt fun _ => rfl]
    cases x.isRemote g.base <;> simp [ProbabilityTable.complete]
  · rw [abortAt, htable, habort, ← weighted_keptSuccessors Successor.abort _ fun _ => rfl]
    simp [ProbabilityTable.complete]
  · rw [(entryAt_complete htable hp).1, hinner,
      ← hsum PartitionOutlook.done .done p hp fun _ => rfl, Vertex.outlookFrom]
    cases x.touches p <;> cases x.isReadOnly <;> simp
  · rw [(entryAt_complete htable hp).2.2, Vertex.writes,
      ← hsum PartitionOutlook.write .write p hp fun _ => rfl, Vertex.outlookFrom]
    cases x.touches p <;> cases x.isReadOnly <;> simp
  · rw [(entryAt_complete htable hp).2.1, Vertex.writes,
      ← hsum PartitionOutlook.readOnly .readOnly p hp fun _ => rfl, Vertex.outlookFrom]
    cases x.touches p <;> cases x.isReadOnly <;> simp

/-! ### Values are sums over routes
-/

/-- What the table of a vertex means: every entry is set, and is a sum over routes. -/
structure PathMeaning (g : Graph Rat) (skipped : List Nat) (v : Nat) : Prop where
  /-- Aborting: the routes that end at ABORT. -/
  abort : ∃ r, (g.table v).abort = some r
    ∧ g.RouteSum skipped (fun _ => true) (fun x => x.kind == .abort) v r
  /-- Staying at the base: the routes to an end on which no vertex touches another partition. -/
  single : ∃ r, (g.table v).single = some r
    ∧ g.RouteSum skipped (fun x => !x.isRemote g.base) (fun x => x.kind.isTerminal) v r
  /-- Being done with a partition: the routes to an end on which no vertex touches it. -/
  done : ∀ p < g.partitions, ∃ r, (g.table v).get? .done p = some r
    ∧ g.RouteSum skipped (fun x => !x.touches p) (fun x => x.kind.isTerminal) v r
  /-- Writing a partition: the routes to the first vertex that writes it. -/
  write : ∀ p < g.partitions, ∃ r, (g.table v).get? .write p = some r
    ∧ g.RouteSum skipped (fun x => !x.writes p) (fun x => x.writes p) v r
  /-- Only reading a partition: nothing. -/
  readOnly : ∀ p < g.partitions, (g.table v).get? .readOnly p = some 0

/-- A value that is set is the one that is read. -/
theorem eq_some_getD {r : Option Rat} (h : r.isSome) : r = some (r.getD 0) := by
  cases r with
  | none => cases h
  | some r => rfl

/-- Where the equations hold at every vertex of a descending list, the tables mean what they
should. -/
theorem pathMeaning_of_equations {order : List Nat}
    (hdescends : (g.shape.without skipped).Descends order)
    (hbounds : ∀ v ∈ order, v < g.vertices.size)
    (hknown : ∀ v ∈ order, (g.table v).Known g.partitions)
    (h : ∀ v ∈ order, ∀ x, g.vertices[v]? = some x → Equations g skipped v x) :
    ∀ v ∈ order, g.PathMeaning skipped v := by
  -- No vertex adds to the probability of only reading, so that it stays zero.
  have hreadOnly : ∀ p < g.partitions, ∀ v ∈ order, g.entryAt .readOnly p v = 0 := by
    intro p hp
    refine hdescends.induction fun v hv hsuccs => ?_
    rw [(h v hv _ (Array.getElem?_eq_getElem (hbounds v hv))).readOnly p hp]
    split
    · rfl
    · refine List.sum_eq_zero fun y hy => ?_
      obtain ⟨⟨e, i⟩, he, rfl⟩ := List.mem_map.mp hy
      rw [hsuccs _ (arc_of_kept he) rfl, mul_zero]
  intro v hv
  refine {
    abort := ⟨_, eq_some_getD (hknown v hv).abort, ?_⟩
    single := ⟨_, eq_some_getD (hknown v hv).single, ?_⟩
    done := fun p hp => ⟨_, eq_some_getD ((hknown v hv).entry .done p hp), ?_⟩
    write := fun p hp => ⟨_, eq_some_getD ((hknown v hv).entry .write p hp), ?_⟩
    readOnly := fun p hp => ?_ }
  · exact routeSum_of_equations g.abortAt hdescends hbounds
      (fun v hv x hx => (h v hv x hx).abort) v hv
  · exact routeSum_of_equations g.singleAt hdescends hbounds
      (fun v hv x hx => (h v hv x hx).single) v hv
  · exact routeSum_of_equations (g.entryAt .done p) hdescends hbounds
      (fun v hv x hx => (h v hv x hx).done p hp) v hv
  · exact routeSum_of_equations (g.entryAt .write p) hdescends hbounds
      (fun v hv x hx => (h v hv x hx).write p hp) v hv
  · rw [eq_some_getD ((hknown v hv).entry .readOnly p hp)]
    exact congrArg some (hreadOnly p hp v hv)

/-! ### Values are probabilities
-/

/-- The mass of a vertex is the sum of the probabilities of its edges. -/
theorem outgoingMass_eq_sum (g : Graph Rat) (v : Nat) :
    g.outgoingMass v = ((g.outgoing v).map fun e => e.1.probability).sum :=
  List.sum_eq_foldl.symm

/-- Over edges that weigh at most one together, values between zero and one stay there. Skipped
edges only make the sum smaller. -/
theorem expected_mem (val : Nat → Rat) (hweights : ∀ e ∈ g.edges, 0 ≤ e.probability)
    (hmass : g.outgoingMass v ≤ 1)
    (hval : ∀ e i, (e, i) ∈ g.kept skipped v → 0 ≤ val e.target ∧ val e.target ≤ 1) :
    0 ≤ g.expected skipped val v ∧ g.expected skipped val v ≤ 1 := by
  have hweight : ∀ e ∈ g.outgoing v, 0 ≤ e.1.probability := by
    intro (e, i) he
    have hedge := List.mem_zipIdx_iff_getElem?.mp (List.mem_filter.mp he).1
    exact hweights e (Array.mem_toList_iff.mp (List.mem_of_getElem? hedge))
  have hkept : ∀ e ∈ g.kept skipped v, e ∈ g.outgoing v := fun e he => (List.mem_filter.mp he).1
  constructor
  · refine List.sum_nonneg fun y hy => ?_
    obtain ⟨e, he, rfl⟩ := List.mem_map.mp hy
    exact mul_nonneg (hweight e (hkept e he)) (hval e.1 e.2 he).1
  -- Skipped edges only take away from the mass.
  · have hterms : g.expected skipped val v
        ≤ ((g.kept skipped v).map fun e => e.1.probability).sum :=
      List.sum_le_sum fun e he =>
        mul_le_of_le_one_right (hweight e (hkept e he)) (hval e.1 e.2 he).2
    have hfewer : ((g.kept skipped v).map fun e => e.1.probability).sum ≤ g.outgoingMass v := by
      rw [outgoingMass_eq_sum]
      refine List.Sublist.sum_le_sum (List.filter_sublist.map _) fun y hy => ?_
      obtain ⟨e, he, rfl⟩ := List.mem_map.mp hy
      exact hweight e he
    exact (hterms.trans hfewer).trans hmass

/-- Averaging is additive. -/
theorem expected_add (val val' : Nat → Rat) :
    g.expected skipped val v + g.expected skipped val' v
      = g.expected skipped (fun u => val u + val' u) v := by
  rw [expected, expected, expected, ← List.sum_map_add]
  simp only [mul_add]

/-- A value that satisfies the equation of the first step lies between zero and one if it does
so at the successors, unless a route can both end and go on. -/
theorem value_mem {val : Nat → Rat} {through stop : Bool}
    (hval : val v = (if stop then 1 else 0) + if through then g.expected skipped val v else 0)
    (hends : stop = true → through = true → g.kept skipped v = [])
    (hexpected : 0 ≤ g.expected skipped val v ∧ g.expected skipped val v ≤ 1) :
    0 ≤ val v ∧ val v ≤ 1 := by
  rw [hval]
  cases stop with
  | false =>
    cases through with
    | false => norm_num
    | true => simpa using hexpected
  | true =>
    cases through with
    | false => norm_num
    | true =>
      rw [expected, hends rfl rfl]
      norm_num

/-- All values of a vertex are probabilities, and a partition is not both done and written. The sum
of the two is at most one since a route cannot count for both. -/
structure Probable (g : Graph Rat) (v : Nat) : Prop where
  abort : 0 ≤ g.abortAt v ∧ g.abortAt v ≤ 1
  single : 0 ≤ g.singleAt v ∧ g.singleAt v ≤ 1
  entry : ∀ p < g.partitions, ∀ field, 0 ≤ g.entryAt field p v ∧ g.entryAt field p v ≤ 1
  exclusive : ∀ p < g.partitions, g.entryAt .done p v + g.entryAt .write p v ≤ 1

/-- At no vertex a partition is both done and written, if so at its successors: a call that
touches it is not done there, and any other adds to what is said after it only at an end. -/
theorem Equations.exclusive (h : Equations g skipped v x)
    (hweights : ∀ e ∈ g.edges, 0 ≤ e.probability) (hmass : g.outgoingMass v ≤ 1)
    (hsuccs : ∀ e i, (e, i) ∈ g.kept skipped v → g.Probable e.target) {p : Nat}
    (hp : p < g.partitions) (hwrite : g.entryAt .write p v ≤ 1) :
    g.entryAt .done p v + g.entryAt .write p v ≤ 1 := by
  cases htouches : x.touches p with
  | true =>
    have hinner : x.kind.isTerminal = false := by
      cases hterminal : x.kind.isTerminal with
      | false => rfl
      | true => exact absurd ((untouched hterminal p g.base).1.symm.trans htouches) (by simp)
    have hzero : g.entryAt .done p v = 0 := by
      rw [h.done p hp, htouches, hinner]
      norm_num
    rw [hzero, zero_add]
    exact hwrite
  | false =>
    -- Taken together, both values are the expectation of a sum that is at most one.
    have hsum := expected_mem (fun u => g.entryAt .done p u + g.entryAt .write p u) hweights hmass
      fun e i he => ⟨add_nonneg ((hsuccs e i he).entry p hp .done).1
        ((hsuccs e i he).entry p hp .write).1, (hsuccs e i he).exclusive p hp⟩
    rw [← expected_add] at hsum
    rw [h.done p hp, h.write p hp, Vertex.writes, htouches]
    cases hterminal : x.kind.isTerminal with
    | false => simpa using hsum.2
    | true =>
      rw [expected, expected, h.ends hterminal]
      norm_num

/-- The values of a vertex are probabilities if those of its successors are. Shares of the edges
that are kept add up to one at most, so that averages with them stay between zero and one. -/
theorem Equations.probable (h : Equations g skipped v x)
    (hweights : ∀ e ∈ g.edges, 0 ≤ e.probability) (hmass : g.outgoingMass v ≤ 1)
    (hsuccs : ∀ e i, (e, i) ∈ g.kept skipped v → g.Probable e.target) : g.Probable v := by
  have hentry := fun p hp field => expected_mem (g.entryAt field p) hweights hmass
    fun e i he => (hsuccs e i he).entry p hp field
  have hdone := fun p hp => value_mem (h.done p hp) (fun hend _ => h.ends hend) (hentry p hp .done)
  have hwrite := fun p hp => value_mem (h.write p hp) (fun hw hnw => by simp [hw] at hnw)
    (hentry p hp .write)
  have hreadOnly : ∀ p < g.partitions,
      0 ≤ g.entryAt .readOnly p v ∧ g.entryAt .readOnly p v ≤ 1 := by
    intro p hp
    rw [h.readOnly p hp]
    split
    · norm_num
    · exact hentry p hp .readOnly
  -- Each entry is an average of values that are probabilities, or one of the constants zero and
  -- one.
  refine {
    abort := value_mem h.abort (fun habort _ => h.ends ?_)
      (expected_mem _ hweights hmass fun e i he => (hsuccs e i he).abort)
    single := value_mem h.single (fun hend _ => h.ends hend)
      (expected_mem _ hweights hmass fun e i he => (hsuccs e i he).single)
    entry := fun p hp field => ?_
    exclusive := fun p hp => h.exclusive hweights hmass hsuccs hp (hwrite p hp).2 }
  · rw [eq_of_beq habort]
    rfl
  · cases field with
    | done => exact hdone p hp
    | readOnly => exact hreadOnly p hp
    | write => exact hwrite p hp

/-- Where the equations hold at every vertex of a descending list, and the edges that leave a
vertex weigh at most one together, the tables hold probabilities. -/
theorem probable_of_equations {order : List Nat}
    (hdescends : (g.shape.without skipped).Descends order)
    (hbounds : ∀ v ∈ order, v < g.vertices.size)
    (h : ∀ v ∈ order, ∀ x, g.vertices[v]? = some x → Equations g skipped v x)
    (hweights : ∀ e ∈ g.edges, 0 ≤ e.probability) (hmass : ∀ v ∈ order, g.outgoingMass v ≤ 1) :
    ∀ v ∈ order, g.Probable v := by
  refine hdescends.induction fun v hv hsuccs => ?_
  exact (h v hv _ (Array.getElem?_eq_getElem (hbounds v hv))).probable hweights (hmass v hv)
    fun e i he => hsuccs _ (arc_of_kept he) rfl

/-- The share of hits is not negative. -/
theorem weighEdges_nonneg (g : Graph Rat) : ∀ e ∈ g.weighEdges.edges, 0 ≤ e.probability := by
  intro e he
  obtain ⟨e', _, rfl⟩ := Array.mem_map.mp he
  dsimp only
  split
  · exact div_nonneg (Nat.cast_nonneg _) (Nat.cast_nonneg _)
  · exact le_refl _

/-- Where the tables of a derived graph agree with their successors', the equations hold. That no
edge leaves COMMIT or ABORT is needed at these two only, where paths end. -/
theorem Initialized.equations {s : Sentinels} {g' : Graph Rat} (h : g.Initialized s)
    (hends : ∀ e ∈ g.edges, e.source ≠ s.commit ∧ e.source ≠ s.abort)
    (hsame : SameButTables g.unsetTables.weighEdges g') (hlocal : g'.LocallySettled skipped v)
    (hx : g'.vertices[v]? = some x) : Equations g' skipped v x := by
  cases hterminal : x.kind.isTerminal with
  | false => exact equations_of_inner hx hlocal hterminal
  | true =>
    -- Only COMMIT and ABORT end paths, and no edge leaves them.
    have hplace := (h.unsetTables.weighEdges.of_sameButTables hsame).terminal
      (by rw [kind?, hx]; rfl) hterminal
    refine equations_of_end hx hlocal hterminal ?_
    refine List.eq_nil_iff_forall_not_mem.mpr ?_
    rintro ⟨e, i⟩ he
    obtain ⟨hedge, hsource, _⟩ := mem_kept.mp he
    obtain ⟨e', he', rfl⟩ := Array.mem_map.mp (hsame.edges ▸ Array.mem_of_getElem? hedge)
    exact hplace.elim (fun heq => (hends e' he').1 (hsource.trans heq))
      (fun heq => (hends e' he').2 (hsource.trans heq))

/-- Deriving succeeds on every initialized graph whose COMMIT and ABORT no edge leaves, with cycles
or without. Its values are then sums over the routes along the edges that the order does not skip,
and they are probabilities if nowhere the edges that leave a vertex weigh more than one together.
Each value is thus told without the order in which the vertices were settled. -/
theorem Initialized.derive_path_sums {s : Sentinels} (h : g.Initialized s)
    (hends : ∀ e ∈ g.edges, e.source ≠ s.commit ∧ e.source ≠ s.abort) :
    ∃ r g', g.reverseOrder = .ok r ∧ g.derive = .ok g'
      ∧ SameButTables g.unsetTables.weighEdges g'
      ∧ (∀ v < g.vertices.size, g'.PathMeaning r.skipped v)
      ∧ ((∀ v < g.vertices.size, g'.outgoingMass v ≤ 1) →
          ∀ v < g.vertices.size, g'.Probable v) := by
  obtain ⟨r, g', horder, hderive, hsame, hsettled, hdescends, hmem⟩ := h.derive_ok hends
  have hsize : g'.vertices.size = g.vertices.size := hsame.size.trans Array.size_map
  have hbounds : ∀ v ∈ r.order.reverse, v < g'.vertices.size := fun v hv => hsize ▸ (hmem v).mp hv
  have hequations : ∀ v ∈ r.order.reverse, ∀ x, g'.vertices[v]? = some x →
      Equations g' r.skipped v x :=
    fun v hv x hx => h.equations hends hsame (hsettled v ((hmem v).mp hv)) hx
  -- Both parts are by induction along the order, from the equations at each vertex.
  refine ⟨r, g', horder, hderive, hsame, fun v hv => ?_, fun hmass v hv => ?_⟩
  · exact pathMeaning_of_equations hdescends hbounds
      (fun u hu => (hsettled u ((hmem u).mp hu)).known (hbounds u hu)) hequations v
      ((hmem v).mpr hv)
  · exact probable_of_equations hdescends hbounds hequations
      (hsame.edges ▸ weighEdges_nonneg g.unsetTables) (fun u hu => hmass u ((hmem u).mp hu)) v
      ((hmem v).mpr hv)

/-- A graph for two partitions, based at the first. A read at the base led to a write at the
other partition, this led back to the read, and the transaction aborted there. -/
def readWriteLoop : Graph Rat :=
  let reading : Call := ⟨0, 0, .singleton 0, .select⟩
  let writing : Call := ⟨1, 0, .singleton 1, .update⟩
  let g := (((fresh 0 0 2).ensureCall reading).1.ensureCall writing).1
  ((((g.link 0 3).1.link 3 4).1.link 4 3).1.link 3 2).1.foldWindow

/-- The graph of the example is initialized, although it has a cycle. -/
theorem initialized_readWriteLoop : readWriteLoop.Initialized ⟨0, 1, 2⟩ := by
  refine Initialized.foldWindow ?_
  refine Initialized.link (Initialized.link (Initialized.link (Initialized.link ?_ ?_ ?_) ?_ ?_)
    ?_ ?_) ?_ ?_
  · exact ((initialized_fresh 0 0 2).ensureCall _).ensureCall _
  all_goals decide +kernel

/-- In the loop the way back from the write is skipped. The edges weigh at most one at every
vertex, and from START half of the routes write at the other partition. -/
theorem derive_path_sums_readWriteLoop :
    readWriteLoop.Initialized ⟨0, 1, 2⟩
      ∧ (∀ e ∈ readWriteLoop.edges, e.source ≠ 1 ∧ e.source ≠ 2)
      ∧ ∃ r g', readWriteLoop.reverseOrder = .ok r ∧ readWriteLoop.derive = .ok g'
        ∧ r.skipped = [2] ∧ (∀ v < 5, g'.PathMeaning r.skipped v) ∧ (∀ v < 5, g'.Probable v)
        ∧ g'.entryAt .write 1 0 = 1 / 2 := by
  have hends : ∀ e ∈ readWriteLoop.edges, e.source ≠ 1 ∧ e.source ≠ 2 := by decide +kernel
  obtain ⟨r, g', horder, hderive, _, hmeaning, hprobable⟩ :=
    initialized_readWriteLoop.derive_path_sums hends
  have hskipped : readWriteLoop.reverseOrder.toOption.map ReverseOrder.skipped = some [2] := by
    decide +kernel
  have hmass : readWriteLoop.derive.toOption.map
      (fun g => (List.range 5).all fun v => decide (g.outgoingMass v ≤ 1)) = some true := by
    decide +kernel
  have hwrite : readWriteLoop.derive.toOption.map (entryAt · .write 1 0) = some (1 / 2) := by
    decide +kernel
  -- What was evaluated is about the very graph and order that the theorem speaks of.
  have hsize : readWriteLoop.vertices.size = 5 := by decide +kernel
  rw [horder] at hskipped
  rw [hderive] at hmass hwrite
  rw [hsize] at hmeaning hprobable
  have hmass : ∀ v < 5, g'.outgoingMass v ≤ 1 := fun v hv => of_decide_eq_true
    (List.all_eq_true.mp (Option.some.inj hmass) v (List.mem_range.mpr hv))
  exact ⟨initialized_readWriteLoop, hends, r, g', horder, hderive, Option.some.inj hskipped,
    hmeaning, hprobable hmass, Option.some.inj hwrite⟩

end Graph

end TxnPath
