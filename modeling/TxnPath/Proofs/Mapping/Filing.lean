import TxnPath.Mapping

/-!
# `TxnPath.Proofs.Mapping.Filing`: a table holds the mappings that it was filled with

A table is filled one mapping at a time, and each goes behind those of its key and parameter. So
what is found under a key and a parameter are the mappings of a list that name these, in the order
of the list (`filedAt_foldl`, `candidates_ofList`), and as nothing empty is filed (`Trim`), this
is all there is to a table (`ofList_eq_iff`). The list of a table has the same mappings under every
key and parameter (`filter_toList`) and goes through these in ascending order (`pairwise_toList`).
-/

set_option autoImplicit false

namespace TxnPath

open Std (ExtTreeMap ReflCmp LawfulEqCmp OrientedCmp TransCmp)

variable {R : Type}

namespace Mapping

/-- Whether a mapping has a key and a parameter. -/
def names (k : MappingKey) (slot : Nat) (m : Mapping R) : Bool := decide (m.key = k ∧ m.slot = slot)

/-- Mappings are ordered by key, then by parameter. -/
def order : Mapping R → Mapping R → Ordering :=
  compareLex (fun a b => MappingKey.order a.key b.key) (compareOn Mapping.slot)

/-- A mapping names a parameter by its key and its slot. -/
theorem names_iff {k : MappingKey} {slot : Nat} {m : Mapping R} :
    m.names k slot = true ↔ m.key = k ∧ m.slot = slot := decide_eq_true_iff

/-- It names its own. -/
theorem names_self (m : Mapping R) : m.names m.key m.slot = true := names_iff.mpr ⟨rfl, rfl⟩

end Mapping

/-- A list has the same mappings as another, as far as these can be looked up. -/
theorem perm_of_filter_names {ms ms' : List (Mapping R)}
    (h : ∀ k slot, ms.filter (Mapping.names k slot) = ms'.filter (Mapping.names k slot)) :
    ms.Perm ms' := by
  classical
  refine List.perm_iff_count.mpr fun m => ?_
  rw [← List.count_filter m.names_self, h, List.count_filter m.names_self]

/-! ### Filing -/

section Filing

variable {f g : MappingFile R} {k : MappingKey} {slot : Nat} {m : Mapping R}

/-- What is filed under a key and a parameter. -/
def filedAt (f : MappingFile R) (k : MappingKey) (slot : Nat) : List (Mapping R) :=
  (f[k]?.bind (·[slot]?)).getD []

/-- Filing a mapping puts it behind the others of its parameter, and leaves the other parameters
alone. -/
theorem getElem?_fileSlot (slots : MappingSlots R) (m : Mapping R) (slot : Nat) :
    (m.fileSlot slots)[slot]?
      = if m.slot = slot then some (slots[slot]?.getD [] ++ [m]) else slots[slot]? := by
  simp only [Mapping.fileSlot, ExtTreeMap.getElem?_alter, Nat.compare_eq_eq]
  by_cases hm : m.slot = slot
  · rw [if_pos hm, if_pos hm, hm]
  · rw [if_neg hm, if_neg hm]

/-- It leaves the other keys alone as well. -/
theorem getElem?_file (f : MappingFile R) (m : Mapping R) (k : MappingKey) :
    (m.file f)[k]? = if m.key = k then some (m.fileSlot (f[k]?.getD ∅)) else f[k]? := by
  simp only [Mapping.file, ExtTreeMap.getElem?_alter, LawfulEqCmp.compare_eq_iff_eq]
  by_cases hk : m.key = k
  · rw [if_pos hk, if_pos hk, hk]
  · rw [if_neg hk, if_neg hk]

/-- A mapping goes behind those of its key and parameter, and all others stay. It is filed under one
key and one slot, and every look-up is compared with these. -/
theorem filedAt_file (f : MappingFile R) (m : Mapping R) (k : MappingKey) (slot : Nat) :
    filedAt (m.file f) k slot = filedAt f k slot ++ [m].filter (Mapping.names k slot) := by
  rw [filedAt, filedAt, getElem?_file]
  by_cases hk : m.key = k
  · rw [if_pos hk, Option.bind_some, getElem?_fileSlot]
    have hslots : (f[k]?.getD ∅)[slot]? = f[k]?.bind (·[slot]?) := by
      cases f[k]? with
      | none => exact ExtTreeMap.getElem?_empty
      | some slots => rfl
    rw [hslots]
    by_cases hm : m.slot = slot
    · simp [Mapping.names, hk, hm]
    · simp [Mapping.names, hk, hm]
  · simp [Mapping.names, hk]

/-- What is filed under a key and a parameter are the mappings of these, in the order of filing. -/
theorem filedAt_foldl (ms : List (Mapping R)) (f : MappingFile R) (k : MappingKey) (slot : Nat) :
    filedAt (ms.foldl Mapping.file f) k slot = filedAt f k slot ++ ms.filter (Mapping.names k slot) := by
  induction ms generalizing f with
  | nil => rw [List.foldl_nil, List.filter_nil, List.append_nil]
  | cons m ms ih =>
    rw [List.foldl_cons, ih, filedAt_file, List.append_assoc, ← List.filter_append,
      List.singleton_append]

/-- Nothing empty is filed. So two files are equal if the same is filed under every key and slot,
and a look-up that finds nothing finds no entry. -/
structure Trim (f : MappingFile R) : Prop where
  keys : ∀ (k : MappingKey) slots, f[k]? = some slots → slots ≠ ∅
  slots : ∀ (k : MappingKey) slots, f[k]? = some slots →
    ∀ (slot : Nat) ms, slots[slot]? = some ms → ms ≠ []

/-- In an empty file there is nothing empty. -/
theorem trim_empty : Trim (∅ : MappingFile R) where
  keys k slots h := by
    rw [ExtTreeMap.getElem?_empty] at h
    cases h
  slots k slots h := by
    rw [ExtTreeMap.getElem?_empty] at h
    cases h

/-- Filing a mapping leaves nothing empty behind: a key or a slot that is made for it has it. -/
theorem Trim.file (h : Trim f) (m : Mapping R) : Trim (m.file f) where
  keys k slots hk := by
    rw [getElem?_file] at hk
    split at hk
    case isTrue =>
      cases hk
      intro hempty
      have hself := getElem?_fileSlot (f[k]?.getD ∅) m m.slot
      rw [hempty, ExtTreeMap.getElem?_empty, if_pos rfl] at hself
      cases hself
    case isFalse => exact h.keys k slots hk
  slots k slots hk slot ms hms := by
    rw [getElem?_file] at hk
    split at hk
    case isTrue =>
      cases hk
      rw [getElem?_fileSlot] at hms
      split at hms
      case isTrue =>
        -- The slot is that of the mapping, and has it as its last.
        cases hms
        exact List.append_ne_nil_of_right_ne_nil _ (List.cons_ne_nil m [])
      case isFalse =>
        cases hf : f[k]? with
        | none =>
          rw [hf, Option.getD_none, ExtTreeMap.getElem?_empty] at hms
          cases hms
        | some slots =>
          rw [hf] at hms
          exact h.slots k slots hf slot ms hms
    case isFalse => exact h.slots k slots hk slot ms hms

/-- So does filing any number of them. -/
theorem trim_foldl (ms : List (Mapping R)) (h : Trim f) : Trim (ms.foldl Mapping.file f) := by
  induction ms generalizing f with
  | nil => exact h
  | cons m ms ih => exact ih (h.file m)

/-- Under a key, either nothing is filed or something under a parameter. -/
theorem Trim.none_iff (h : Trim f) (k : MappingKey) :
    f[k]? = none ↔ ∀ slot, filedAt f k slot = [] := by
  constructor
  · intro hk slot
    rw [filedAt, hk]
    rfl
  · intro hnone
    cases hk : f[k]? with
    | none => rfl
    -- Slots under a key are not empty, and none of them is, so that something would be filed.
    | some slots =>
      refine absurd (ExtTreeMap.ext_getElem? fun {slot} => ?_) (h.keys k slots hk)
      rw [ExtTreeMap.getElem?_empty]
      cases hms : slots[slot]? with
      | none => rfl
      | some ms =>
        have hempty := hnone slot
        rw [filedAt, hk, Option.bind_some, hms] at hempty
        exact absurd hempty (h.slots k slots hk slot ms hms)

/-- As nothing empty is filed, a slot is there exactly if something is found in it. -/
theorem Trim.slot_eq (h : Trim f) {slots : MappingSlots R} (hk : f[k]? = some slots) (slot : Nat) :
    slots[slot]? = if filedAt f k slot = [] then none else some (filedAt f k slot) := by
  rw [filedAt, hk, Option.bind_some]
  cases hms : slots[slot]? with
  | none => rfl
  | some ms => exact (if_neg (h.slots k slots hk slot ms hms)).symm

/-- Two files with the same mappings under every key and parameter are the same. It takes that
neither of them has empty entries, which would make a difference that no look-up of mappings sees.
-/
theorem Trim.ext (hf : Trim f) (hg : Trim g) (h : ∀ k slot, filedAt f k slot = filedAt g k slot) :
    f = g := by
  refine ExtTreeMap.ext_getElem? fun {k} => ?_
  cases hk : f[k]? with
  | none =>
    have hnone := (hf.none_iff k).mp hk
    exact ((hg.none_iff k).mpr fun slot => (h k slot).symm.trans (hnone slot)).symm
  | some slots =>
    cases hk' : g[k]? with
    | none =>
      have hnone := (hg.none_iff k).mp hk'
      rw [(hf.none_iff k).mpr fun slot => (h k slot).trans (hnone slot)] at hk
      cases hk
    | some slots' =>
      refine congrArg some (ExtTreeMap.ext_getElem? fun {slot} => ?_)
      rw [hf.slot_eq hk, hg.slot_eq hk', h]

end Filing

/-! ### Tables -/

namespace MappingTable

variable {t : MappingTable R} {ms ms' : List (Mapping R)}

/-- A table is its file and its size. -/
theorem ext {t t' : MappingTable R} (hfile : t.byStatement = t'.byStatement)
    (hsize : t.size = t'.size) : t = t' := by
  cases t
  cases t'
  cases hfile
  cases hsize
  rfl

/-- A table that is made from a list has its mappings filed one by one, and knows how many they are.
-/
theorem ofList_spec (ms : List (Mapping R)) :
    (ofList ms).byStatement = ms.foldl Mapping.file ∅ ∧ (ofList ms).size = ms.length := by
  have hadd : ∀ t : MappingTable R,
      (ms.foldl add t).byStatement = ms.foldl Mapping.file t.byStatement
        ∧ (ms.foldl add t).size = t.size + ms.length := by
    induction ms with
    | nil => exact fun t => ⟨rfl, rfl⟩
    | cons m ms ih =>
      intro t
      obtain ⟨hfile, hsize⟩ := ih (t.add m)
      refine ⟨hfile, ?_⟩
      have hone : (t.add m).size = t.size + 1 := rfl
      rw [List.foldl_cons, hsize, List.length_cons, hone]
      omega
  obtain ⟨hfile, hsize⟩ := hadd ∅
  exact ⟨hfile, hsize.trans (Nat.zero_add _)⟩

/-- Every table is that of a list. -/
theorem exists_ofList (t : MappingTable R) : ∃ ms, t = ofList ms := by
  obtain ⟨ms, hfile, hsize⟩ := t.filed
  obtain ⟨hfile', hsize'⟩ := ofList_spec ms
  exact ⟨ms, ext (hfile.trans hfile'.symm) (hsize.trans hsize'.symm)⟩

/-- Every table was filled in this way, so that nothing in it is empty. -/
theorem trim_byStatement (t : MappingTable R) : Trim t.byStatement := by
  obtain ⟨ms, hfile, _⟩ := t.filed
  rw [hfile]
  exact trim_foldl ms trim_empty

/-- Under a key and a slot are the mappings of the list that name them, in the order of the list. -/
theorem filedAt_ofList (ms : List (Mapping R)) (k : MappingKey) (slot : Nat) :
    filedAt (ofList ms).byStatement k slot = ms.filter (Mapping.names k slot) := by
  rw [(ofList_spec ms).1, filedAt_foldl, filedAt, ExtTreeMap.getElem?_empty]
  rfl

/-- The mappings for a parameter are those of the list that name it, in the order of the list. -/
theorem candidates_ofList (ms : List (Mapping R)) (procedure : ProcedureId)
    (statement : StatementId) (occurrence slot : Nat) :
    (ofList ms).candidates procedure statement occurrence slot
      = ms.filter (Mapping.names ⟨procedure, statement, occurrence⟩ slot) :=
  filedAt_ofList ms ⟨procedure, statement, occurrence⟩ slot

/-- A table is determined by the mappings under every key and parameter. -/
theorem ofList_eq_iff : ofList ms = ofList ms'
    ↔ ∀ k slot, ms.filter (Mapping.names k slot) = ms'.filter (Mapping.names k slot) := by
  refine ⟨fun h k slot => ?_, fun h => ext ?_ ?_⟩
  · rw [← filedAt_ofList, h, filedAt_ofList]
  · refine (trim_byStatement _).ext (trim_byStatement _) fun k slot => ?_
    rw [filedAt_ofList, filedAt_ofList, h]
  · rw [(ofList_spec ms).2, (ofList_spec ms').2, (perm_of_filter_names h).length_eq]

/-! ### Listing -/

/-- What a map lists under one key, if it lists nothing of interest under others. That is how a
table that lists all mappings comes to list those of one parameter. -/
theorem flatMap_toList {α β γ : Type} {cmp : α → α → Ordering} [TransCmp cmp] [LawfulEqCmp cmp]
    (m : ExtTreeMap α β cmp) (k : α) (f : α × β → List γ) (h : ∀ e ∈ m.toList, e.1 ≠ k → f e = []) :
    m.toList.flatMap f = (m[k]?.map fun b => f (k, b)).getD [] := by
  cases hk : m[k]? with
  | none =>
    refine List.flatMap_eq_nil_iff.mpr fun e he => h e he ?_
    rintro rfl
    rw [ExtTreeMap.mem_toList_iff_getElem?_eq_some.mp he] at hk
    cases hk
  -- Keys are listed once, so that no other entry contributes.
  | some b =>
    obtain ⟨before, after, hsplit⟩ :=
      List.append_of_mem (ExtTreeMap.mem_toList_iff_getElem?_eq_some.mpr hk)
    have hdistinct := ExtTreeMap.distinct_keys_toList (t := m)
    rw [hsplit, List.pairwise_append, List.pairwise_cons] at hdistinct
    obtain ⟨-, ⟨hafter, -⟩, hbefore⟩ := hdistinct
    have hnil : ∀ e ∈ before ++ after, f e = [] := by
      intro e he
      refine h e ?_ ?_
      · rw [hsplit]
        rcases List.mem_append.mp he with he | he
        · exact List.mem_append_left _ he
        · exact List.mem_append_right _ (List.mem_cons_of_mem _ he)
      · rintro rfl
        rcases List.mem_append.mp he with he | he
        · exact hbefore e he (e.1, b) List.mem_cons_self ReflCmp.compare_self
        · exact hafter e he ReflCmp.compare_self
    obtain ⟨hbefore, hafter⟩ := List.forall_mem_append.mp hnil
    rw [hsplit, List.flatMap_append, List.flatMap_cons, List.flatMap_eq_nil_iff.mpr hbefore,
      List.flatMap_eq_nil_iff.mpr hafter, List.nil_append, List.append_nil]
    rfl

/-- Every mapping is filed under its own key and parameter. -/
theorem names_of_filed (t : MappingTable R) {k : MappingKey} {slots : MappingSlots R} {slot : Nat}
    {ms : List (Mapping R)} {m : Mapping R} (hk : t.byStatement[k]? = some slots)
    (hms : slots[slot]? = some ms) (hm : m ∈ ms) : m.key = k ∧ m.slot = slot := by
  obtain ⟨all, rfl⟩ := t.exists_ofList
  have hfiled := filedAt_ofList all k slot
  rw [filedAt, hk, Option.bind_some, hms, Option.getD_some] at hfiled
  rw [hfiled] at hm
  exact Mapping.names_iff.mp (List.mem_filter.mp hm).2

/-- A list that is filed under a key and a parameter has the mappings of these and no others. -/
theorem filter_filed (t : MappingTable R) {k k' : MappingKey} {slots : MappingSlots R}
    {slot slot' : Nat} {ms : List (Mapping R)} (hk : t.byStatement[k']? = some slots)
    (hms : slots[slot']? = some ms) :
    ms.filter (Mapping.names k slot) = if k' = k ∧ slot' = slot then ms else [] := by
  split
  case isTrue heq =>
    obtain ⟨rfl, rfl⟩ := heq
    exact List.filter_eq_self.mpr fun m hm => Mapping.names_iff.mpr (names_of_filed t hk hms hm)
  case isFalse hne =>
    refine List.filter_eq_nil_iff.mpr fun m hm hnames => hne ?_
    obtain ⟨hkey, hslot⟩ := names_of_filed t hk hms hm
    rw [← hkey, ← hslot]
    exact Mapping.names_iff.mp hnames

/-- The list of a table has the mappings under every key and parameter, in recorded order. Mappings
of different keys are listed key by key, so that only those of one key and parameter are in the
order of recording. -/
theorem filter_toList (t : MappingTable R) (k : MappingKey) (slot : Nat) :
    t.toList.filter (Mapping.names k slot) = filedAt t.byStatement k slot := by
  -- Under one key, the mappings of the slot are found in the entry of the slot, and nowhere else.
  have hslots : ∀ k' slots, t.byStatement[k']? = some slots →
      (slots.toList.flatMap Prod.snd).filter (Mapping.names k slot)
        = if k' = k then slots[slot]?.getD [] else [] := by
    intro k' slots hk
    rw [List.filter_flatMap, flatMap_toList slots slot]
    · cases hms : slots[slot]? with
      | none => exact (ite_self []).symm
      | some ms => simp [filter_filed t hk hms]
    · intro e he hne
      have hms := ExtTreeMap.mem_toList_iff_getElem?_eq_some.mp he
      rw [filter_filed t hk hms, if_neg fun heq => hne heq.2]
  rw [toList, List.filter_flatMap, flatMap_toList t.byStatement k, filedAt]
  · cases hk : t.byStatement[k]? with
    | none => rfl
    | some slots =>
      rw [Option.map_some, Option.getD_some, hslots k slots hk, if_pos rfl]
      rfl
  · intro e he hne
    rw [hslots e.1 e.2 (ExtTreeMap.mem_toList_iff_getElem?_eq_some.mp he), if_neg hne]

/-- A list of mappings keeps its order within each parameter when it is made a table and listed
again. -/
theorem filter_toList_ofList (ms : List (Mapping R)) (k : MappingKey) (slot : Nat) :
    (ofList ms).toList.filter (Mapping.names k slot) = ms.filter (Mapping.names k slot) := by
  rw [filter_toList, filedAt_ofList]

/-- Listing a table loses nothing and adds nothing. -/
theorem toList_perm (ms : List (Mapping R)) : (ofList ms).toList.Perm ms :=
  perm_of_filter_names (filter_toList_ofList ms)

/-- Listing a table and filling another one with the list gives the same table. -/
theorem ofList_toList (t : MappingTable R) : ofList t.toList = t := by
  obtain ⟨ms, rfl⟩ := t.exists_ofList
  exact ofList_eq_iff.mpr (filter_toList_ofList ms)

/-- A table lists as many mappings as it has. -/
theorem length_toList (t : MappingTable R) : t.toList.length = t.size := by
  obtain ⟨ms, rfl⟩ := t.exists_ofList
  rw [(toList_perm ms).length_eq, (ofList_spec ms).2]

/-- The mappings for an occurrence of a statement are those that the table lists for it. The program
reads one entry of its file, where a reader would search the list. -/
theorem ofStatement_eq (t : MappingTable R) (procedure : ProcedureId) (statement : StatementId)
    (occurrence : Nat) :
    t.ofStatement procedure statement occurrence
      = t.toList.filter fun m => m.key = ⟨procedure, statement, occurrence⟩ := by
  -- All that is filed under a key names it.
  have hkey : ∀ (k : MappingKey) (slots : MappingSlots R), t.byStatement[k]? = some slots →
      ∀ m ∈ slots.toList.flatMap Prod.snd, m.key = k := by
    intro k slots hk m hm
    obtain ⟨e, he, hm⟩ := List.mem_flatMap.mp hm
    exact (names_of_filed t hk (ExtTreeMap.mem_toList_iff_getElem?_eq_some.mp he) hm).1
  rw [ofStatement, statementMappings?, toList, List.filter_flatMap,
    flatMap_toList t.byStatement ⟨procedure, statement, occurrence⟩]
  · cases hk : t.byStatement[(⟨procedure, statement, occurrence⟩ : MappingKey)]? with
    | none => rfl
    | some slots =>
      exact (List.filter_eq_self.mpr fun m hm => decide_eq_true (hkey _ slots hk m hm)).symm
  · intro e he hne
    refine List.filter_eq_nil_iff.mpr fun m hm heq => hne ?_
    rw [← hkey e.1 e.2 (ExtTreeMap.mem_toList_iff_getElem?_eq_some.mp he) m hm]
    exact of_decide_eq_true heq

/-- A table lists its mappings by key and parameter, both ascending. The list is nested, by key and
then by slot, so that any two mappings are of different keys, of one key and different slots, or of
one slot. -/
theorem pairwise_toList (t : MappingTable R) :
    t.toList.Pairwise fun a b => (Mapping.order a b).isLE = true := by
  have hfiled : ∀ e ∈ t.byStatement.toList, ∀ e' ∈ e.2.toList, ∀ m ∈ e'.2,
      m.key = e.1 ∧ m.slot = e'.1 := fun e he e' he' m hm =>
    names_of_filed t (ExtTreeMap.mem_toList_iff_getElem?_eq_some.mp he)
      (ExtTreeMap.mem_toList_iff_getElem?_eq_some.mp he') hm
  -- Keys come first, and slots decide within one key.
  have hlt : ∀ {a b : Mapping R}, MappingKey.order a.key b.key = .lt
      ∨ a.key = b.key ∧ a.slot ≤ b.slot → (Mapping.order a b).isLE = true := by
    rintro a b (hkey | ⟨hkey, hslot⟩)
    · simp [Mapping.order, compareLex, hkey]
    · have hself : MappingKey.order b.key b.key = .eq := ReflCmp.compare_self
      have hle : (compare a.slot b.slot).isLE = true := Nat.isLE_compare.mpr hslot
      simp [Mapping.order, compareLex, compareOn, hkey, hself, hle]
  refine List.pairwise_flatMap.mpr ⟨fun e he => List.pairwise_flatMap.mpr ⟨fun e' he' => ?_, ?_⟩, ?_⟩
  · -- Mappings of one parameter name the same.
    refine List.pairwise_of_forall_mem_list fun a ha b hb => hlt (.inr ?_)
    obtain ⟨hkey, hslot⟩ := hfiled e he e' he' a ha
    obtain ⟨hkey', hslot'⟩ := hfiled e he e' he' b hb
    exact ⟨hkey.trans hkey'.symm, Nat.le_of_eq (hslot.trans hslot'.symm)⟩
  · refine (ExtTreeMap.ordered_keys_toList (t := e.2)).imp_of_mem fun {x y} hx hy hxy a ha b hb => ?_
    obtain ⟨hkey, hslot⟩ := hfiled e he x hx a ha
    obtain ⟨hkey', hslot'⟩ := hfiled e he y hy b hb
    refine hlt (.inr ⟨hkey.trans hkey'.symm, ?_⟩)
    rw [hslot, hslot']
    exact Nat.le_of_lt (Nat.compare_eq_lt.mp hxy)
  · refine (ExtTreeMap.ordered_keys_toList (t := t.byStatement)).imp_of_mem
      fun {x y} hx hy hxy a ha b hb => ?_
    obtain ⟨x', hx', ha⟩ := List.mem_flatMap.mp ha
    obtain ⟨y', hy', hb⟩ := List.mem_flatMap.mp hb
    refine hlt (.inl ?_)
    rw [(hfiled x hx x' hx' a ha).1, (hfiled y hy y' hy' b hb).1]
    exact hxy

end MappingTable

end TxnPath
