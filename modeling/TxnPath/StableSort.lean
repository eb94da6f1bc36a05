/-!
# Stable sorting

`stableSort le` orders a list by a comparison and keeps equal elements in the order they came in.
It inserts the elements one by one from the right, each before the first that it does not exceed.
-/

set_option autoImplicit false

namespace TxnPath

variable {α : Type}

/-- Puts an element before the first one that it does not exceed. -/
def insertOrdered (le : α → α → Bool) (a : α) : List α → List α
  | [] => [a]
  | b :: rest => if le a b then a :: b :: rest else b :: insertOrdered le a rest

/-- The elements of a list in order, equal ones as they came. -/
def stableSort (le : α → α → Bool) (xs : List α) : List α := xs.foldr (insertOrdered le) []

theorem insertOrdered_perm (le : α → α → Bool) (a : α) (xs : List α) :
    (insertOrdered le a xs).Perm (a :: xs) := by
  induction xs with
  | nil => exact List.Perm.refl _
  | cons b rest ih =>
    simp only [insertOrdered]
    split
    · exact List.Perm.refl _
    · exact (ih.cons b).trans (List.Perm.swap a b rest)

/-- Sorting loses nothing and adds nothing. -/
theorem stableSort_perm (le : α → α → Bool) (xs : List α) : (stableSort le xs).Perm xs := by
  induction xs with
  | nil => exact List.Perm.refl _
  | cons a rest ih => exact (insertOrdered_perm le a _).trans (ih.cons a)

@[simp] theorem mem_stableSort {le : α → α → Bool} {xs : List α} {a : α} :
    a ∈ stableSort le xs ↔ a ∈ xs := (stableSort_perm le xs).mem_iff

@[simp] theorem length_stableSort (le : α → α → Bool) (xs : List α) :
    (stableSort le xs).length = xs.length := (stableSort_perm le xs).length_eq

theorem pairwise_insertOrdered {le : α → α → Bool}
    (total : ∀ a b, le a b = true ∨ le b a = true)
    (trans : ∀ a b c, le a b = true → le b c = true → le a c = true) {a : α} {xs : List α}
    (h : xs.Pairwise fun x y => le x y = true) :
    (insertOrdered le a xs).Pairwise fun x y => le x y = true := by
  induction xs with
  | nil => simp [insertOrdered]
  | cons b rest ih =>
    have hb := List.pairwise_cons.1 h
    simp only [insertOrdered]
    split
    · next hab =>
      refine List.pairwise_cons.2 ⟨fun x hx => ?_, h⟩
      rcases List.mem_cons.1 hx with rfl | hx
      · exact hab
      · exact trans _ _ _ hab (hb.1 x hx)
    · next hab =>
      refine List.pairwise_cons.2 ⟨fun x hx => ?_, ih hb.2⟩
      rcases List.mem_cons.1 ((insertOrdered_perm le a rest).mem_iff.1 hx) with rfl | hx
      · exact (total x b).resolve_left hab
      · exact hb.1 x hx

/-- The result is in order, if the comparison is total and transitive. -/
theorem pairwise_stableSort {le : α → α → Bool}
    (total : ∀ a b, le a b = true ∨ le b a = true)
    (trans : ∀ a b c, le a b = true → le b c = true → le a c = true) (xs : List α) :
    (stableSort le xs).Pairwise fun x y => le x y = true := by
  induction xs with
  | nil => exact List.Pairwise.nil
  | cons a rest ih => exact pairwise_insertOrdered total trans ih

theorem filter_insertOrdered {le : α → α → Bool} {p : α → Bool} {a : α} (xs : List α)
    (h : ∀ b, p a = true → p b = true → le a b = true) :
    (insertOrdered le a xs).filter p = (a :: xs).filter p := by
  induction xs with
  | nil => rfl
  | cons b rest ih =>
    simp only [insertOrdered]
    split
    · rfl
    · next hab =>
      rw [List.filter_cons, ih]
      by_cases ha : p a = true
      · have hb : ¬ p b = true := fun hb => hab (h b ha hb)
        simp [ha, hb]
      · simp [ha, List.filter_cons]

/-- Elements that all compare as equal stay in the order they came in. -/
theorem filter_stableSort {le : α → α → Bool} {p : α → Bool}
    (h : ∀ a b, p a = true → p b = true → le a b = true) (xs : List α) :
    (stableSort le xs).filter p = xs.filter p := by
  induction xs with
  | nil => rfl
  | cons a rest ih =>
    show (insertOrdered le a (stableSort le rest)).filter p = _
    rw [filter_insertOrdered _ (h a), List.filter_cons, List.filter_cons, ih]

theorem insertOrdered_congr {le le' : α → α → Bool} {a : α} {xs : List α}
    (h : ∀ b ∈ xs, le a b = le' a b) : insertOrdered le a xs = insertOrdered le' a xs := by
  induction xs with
  | nil => rfl
  | cons b rest ih =>
    obtain ⟨hb, hrest⟩ := List.forall_mem_cons.mp h
    rw [insertOrdered, insertOrdered, hb, ih hrest]

/-- Only how the elements of the list compare matters. -/
theorem stableSort_congr {le le' : α → α → Bool} {xs : List α}
    (h : ∀ a ∈ xs, ∀ b ∈ xs, le a b = le' a b) : stableSort le xs = stableSort le' xs := by
  induction xs with
  | nil => rfl
  | cons a rest ih =>
    have hrest := ih fun x hx y hy => h x (List.mem_cons_of_mem a hx) y (List.mem_cons_of_mem a hy)
    show insertOrdered le a (stableSort le rest) = insertOrdered le' a (stableSort le' rest)
    rw [← hrest]
    exact insertOrdered_congr fun b hb =>
      h a List.mem_cons_self b (List.mem_cons_of_mem a (mem_stableSort.mp hb))

end TxnPath
