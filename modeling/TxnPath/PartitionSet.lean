import TxnPath.Ident

/-!
# Sets of partitions

A `PartitionSet` is a strictly ascending list of partitions. Two sets with the same members are
therefore equal (`PartitionSet.ext_mem`), which makes a set usable as part of a vertex's identity,
and listing a set lists it in ascending order.
-/

set_option autoImplicit false

namespace TxnPath

/-- A finite set of partitions, kept as its members in strictly ascending order. -/
structure PartitionSet where
  /-- The members, ascending. -/
  toList : List Nat
  /-- No member is listed twice, and each is below the next. -/
  ascending : toList.Pairwise (· < ·)
  deriving DecidableEq

namespace PartitionSet

/-- Puts `p` into an ascending list at its place, unless it is there already. -/
def place (p : Nat) : List Nat → List Nat
  | [] => [p]
  | q :: rest => if p < q then p :: q :: rest else if p = q then q :: rest else q :: place p rest

theorem mem_place {p x : Nat} {l : List Nat} : x ∈ place p l ↔ x = p ∨ x ∈ l := by
  induction l with
  | nil => simp [place]
  | cons q rest ih =>
    simp only [place]
    split
    · simp
    · split
      · next h => subst h; simp
      · simp only [List.mem_cons, ih]; constructor <;> rintro (h | h | h) <;> simp [h]

theorem pairwise_place {p : Nat} {l : List Nat} (h : l.Pairwise (· < ·)) :
    (place p l).Pairwise (· < ·) := by
  induction l with
  | nil => simp [place]
  | cons q rest ih =>
    have hq := List.pairwise_cons.1 h
    simp only [place]
    split
    · next hp =>
      refine List.pairwise_cons.2 ⟨fun x hx => ?_, h⟩
      rcases List.mem_cons.1 hx with rfl | hx
      · exact hp
      · exact Nat.lt_trans hp (hq.1 x hx)
    · split
      · exact h
      · next hp hne =>
        refine List.pairwise_cons.2 ⟨fun x hx => ?_, ih hq.2⟩
        rcases mem_place.1 hx with rfl | hx
        · omega
        · exact hq.1 x hx

/-- The set without members. -/
def empty : PartitionSet := ⟨[], List.Pairwise.nil⟩

instance : EmptyCollection PartitionSet := ⟨empty⟩

instance : Inhabited PartitionSet := ⟨empty⟩

instance : Membership Nat PartitionSet := ⟨fun s p => p ∈ s.toList⟩

instance (p : Nat) (s : PartitionSet) : Decidable (p ∈ s) :=
  inferInstanceAs (Decidable (p ∈ s.toList))

/-- Adds one partition. -/
def insert (s : PartitionSet) (p : Nat) : PartitionSet :=
  ⟨place p s.toList, pairwise_place s.ascending⟩

/-- The set with the one member `p`. -/
def singleton (p : Nat) : PartitionSet := empty.insert p

/-- Adds every partition of a list. -/
def insertAll (s : PartitionSet) (l : List Nat) : PartitionSet := l.foldl insert s

/-- The members of a list, as a set. -/
def ofList (l : List Nat) : PartitionSet := empty.insertAll l

/-- The members of either set. -/
def union (s t : PartitionSet) : PartitionSet := s.insertAll t.toList

/-- Every partition below `n`. -/
def below (n : Nat) : PartitionSet := ⟨List.range n, List.pairwise_lt_range⟩

/-- The members that pass a test. -/
def filter (s : PartitionSet) (keep : Nat → Bool) : PartitionSet :=
  ⟨s.toList.filter keep, s.ascending.filter _⟩

/-- The number of members. -/
def size (s : PartitionSet) : Nat := s.toList.length

/-- Whether the set has no members. -/
def isEmpty (s : PartitionSet) : Bool := s.toList.isEmpty

/-- Whether every member of `s` is a member of `t`. -/
def isSubset (s t : PartitionSet) : Bool := s.toList.all (· ∈ t)

theorem mem_def {s : PartitionSet} {p : Nat} : p ∈ s ↔ p ∈ s.toList := Iff.rfl

@[simp] theorem not_mem_empty (p : Nat) : p ∉ (∅ : PartitionSet) := by
  simp [mem_def, EmptyCollection.emptyCollection, empty]

@[simp] theorem mem_insert {s : PartitionSet} {p x : Nat} :
    x ∈ s.insert p ↔ x = p ∨ x ∈ s := mem_place

@[simp] theorem mem_insertAll {s : PartitionSet} {l : List Nat} {x : Nat} :
    x ∈ s.insertAll l ↔ x ∈ s ∨ x ∈ l := by
  induction l generalizing s with
  | nil => simp [insertAll]
  | cons p rest ih =>
    have : s.insertAll (p :: rest) = (s.insert p).insertAll rest := rfl
    rw [this, ih, mem_insert, List.mem_cons]
    constructor
    · rintro ((h | h) | h) <;> simp [h]
    · rintro (h | h | h) <;> simp [h]

@[simp] theorem mem_ofList {l : List Nat} {x : Nat} : x ∈ ofList l ↔ x ∈ l := by
  have : x ∉ empty := not_mem_empty x
  simp [ofList, this]

@[simp] theorem mem_singleton {p x : Nat} : x ∈ singleton p ↔ x = p := by
  have : x ∉ empty := not_mem_empty x
  simp [singleton, this]

@[simp] theorem mem_union {s t : PartitionSet} {x : Nat} : x ∈ s.union t ↔ x ∈ s ∨ x ∈ t := by
  simp [union, mem_def (s := t)]

@[simp] theorem mem_below {n x : Nat} : x ∈ below n ↔ x < n := by
  simp [mem_def, below]

@[simp] theorem mem_filter {s : PartitionSet} {keep : Nat → Bool} {x : Nat} :
    x ∈ s.filter keep ↔ x ∈ s ∧ keep x = true := by
  simp [mem_def, filter]

theorem isSubset_iff {s t : PartitionSet} : s.isSubset t = true ↔ ∀ p ∈ s, p ∈ t := by
  simp [isSubset, mem_def]

/-- Two ascending lists with the same members are the same list. -/
theorem eq_of_mem_iff {a b : List Nat} (ha : a.Pairwise (· < ·)) (hb : b.Pairwise (· < ·))
    (h : ∀ x, x ∈ a ↔ x ∈ b) : a = b := by
  induction a generalizing b with
  | nil =>
    cases b with
    | nil => rfl
    | cons y ys => exact absurd ((h y).2 (List.mem_cons_self ..)) (by simp)
  | cons x xs ih =>
    cases b with
    | nil => exact absurd ((h x).1 (List.mem_cons_self ..)) (by simp)
    | cons y ys =>
      have hx := List.pairwise_cons.1 ha
      have hy := List.pairwise_cons.1 hb
      have hxy : x = y := by
        rcases List.mem_cons.1 ((h x).1 (List.mem_cons_self ..)) with e | e
        · exact e
        · rcases List.mem_cons.1 ((h y).2 (List.mem_cons_self ..)) with e' | e'
          · exact e'.symm
          · have := hx.1 y e'
            have := hy.1 x e
            omega
      subst hxy
      congr 1
      refine ih hx.2 hy.2 fun z => ?_
      have hz := h z
      simp only [List.mem_cons] at hz
      constructor
      · intro m
        have := hx.1 z m
        rcases hz.1 (Or.inr m) with e | e
        · omega
        · exact e
      · intro m
        have := hy.1 z m
        rcases hz.2 (Or.inr m) with e | e
        · omega
        · exact e

/-- A set is determined by its members. -/
theorem ext_mem {s t : PartitionSet} (h : ∀ p, p ∈ s ↔ p ∈ t) : s = t := by
  cases s with
  | mk a ha =>
    cases t with
    | mk b hb =>
      have : a = b := eq_of_mem_iff ha hb h
      subst this
      rfl

end PartitionSet

end TxnPath
