import TxnPath.Design.Plan
import TxnPath.Proofs.Catalog

/-!
# `TxnPath.Proofs.Design.Apply`: what applying a plan writes

A plan is written into a catalog entry by entry, each into the first table or procedure of its
name. `Overwritten` is one such run over tables or procedures, and says what is found under every
name afterwards. `Plan.apply_of_named` puts the two runs of a plan together: a plan that names
nothing that the catalog lacks is written as a whole, and `Plan.Written` is what it leaves.
-/

set_option autoImplicit false

namespace TxnPath

open Std (ExtTreeMap LawfulEqCmp)

/-! ### Changes to the first of a name -/

section Overwritten

variable {α β : Type} {key : α → String} {l l' : List α} {name : String} {i : Nat}

/-- Under a name stands what stood there before, changed if its first bearer was. It needs that a
change keeps the name; and the entries behind the first of a name are never found, so that it does
not matter whether they are changed. -/
theorem find?_modify_first {change : α → α} (hkey : ∀ a, key (change a) = key a)
    (hi : l.findIdx? (fun a => key a == name) = some i) (other : String) :
    (l.modify i change).find? (fun a => key a = other) =
      if other = name then (l.find? fun a => key a = other).map change
      else l.find? fun a => key a = other := by
  induction l generalizing i with
  | nil => cases hi
  | cons a l ih =>
    rw [List.findIdx?_cons] at hi
    split at hi
    -- This is the first entry of the name: it is changed, and found under no other name.
    case isTrue ha =>
      cases hi
      have ha : key a = name := eq_of_beq ha
      rw [List.modify_zero_cons, List.find?_cons, hkey, ha, List.find?_cons, ha]
      by_cases hother : name = other
      · simp [hother]
      · simp [hother, Ne.symm hother]
    -- The entry is further on. The one at the front keeps its place and its name.
    case isFalse ha =>
      obtain ⟨j, hj, rfl⟩ := Option.map_eq_some_iff.mp hi
      rw [List.modify_succ_cons, List.find?_cons, List.find?_cons, ih hj]
      by_cases hother : key a = other
      · have hne : other ≠ name := fun h => ha (beq_iff_eq.mpr (hother.trans h))
        simp [hother, hne]
      · simp [hother]

/-- What a change keeps of every element is what the list shows before and after. -/
theorem map_modify_of_kept {γ : Type} {view : α → γ} {change : α → α}
    (hview : ∀ a, view (change a) = view a) : (l.modify i change).map view = l.map view := by
  induction l generalizing i with
  | nil => simp
  | cons a l ih =>
    cases i with
    | zero => simp [hview]
    | succ i => simp [ih]

/-- Changing the first of a name leaves a list alone whose first of this name needs no change. The
first is named twice, by its place and by the look-up, and the two meet along the list. -/
theorem modify_first_eq_self {change : α → α} {a : α}
    (hi : l.findIdx? (fun a => key a == name) = some i)
    (ha : l.find? (fun a => key a = name) = some a) (hfixed : change a = a) :
    l.modify i change = l := by
  induction l generalizing i with
  | nil => cases hi
  | cons b l ih =>
    rw [List.findIdx?_cons] at hi
    rw [List.find?_cons] at ha
    by_cases hb : key b = name
    · simp only [hb, BEq.rfl, decide_true, if_true, Option.some_inj] at hi ha
      rw [← hi, List.modify_zero_cons, ha, hfixed]
    · simp only [hb, beq_eq_false_iff_ne.mpr hb, decide_false, Bool.false_eq_true, if_false] at hi ha
      obtain ⟨j, hj, rfl⟩ := Option.map_eq_some_iff.mp hi
      rw [List.modify_succ_cons, ih hj ha]

/-- A list comes from another by changing the first bearer of each of several names, one after
another. -/
inductive Overwritten (key : α → String) (change : β → α → α) :
    List (String × β) → List α → List α → Prop
  | nil (l : List α) : Overwritten key change [] l l
  | cons {name : String} {b : β} {entries : List (String × β)} {l l' : List α} {i : Nat}
      (hi : l.findIdx? (fun a => key a == name) = some i)
      (hrest : Overwritten key change entries (l.modify i (change b)) l') :
      Overwritten key change ((name, b) :: entries) l l'

namespace Overwritten

variable {change : β → α → α} {entries : List (String × β)} {b : β}

/-- What no change touches is as before, at every place. -/
theorem map_of_kept {γ : Type} {view : α → γ} (hview : ∀ b a, view (change b a) = view a)
    (h : Overwritten key change entries l l') : l'.map view = l.map view := by
  induction h with
  | nil => rfl
  | cons hi _ ih => rw [ih, map_modify_of_kept (hview _)]

/-- What has a name that is not among the entries stays. -/
theorem find?_of_not_mem (hkey : ∀ b a, key (change b a) = key a)
    (h : Overwritten key change entries l l') (hname : name ∉ entries.map Prod.fst) :
    l'.find? (fun a => key a = name) = l.find? fun a => key a = name := by
  induction h with
  | nil => rfl
  | cons hi _ ih =>
    rw [List.map_cons, List.mem_cons, not_or] at hname
    rw [ih hname.2, find?_modify_first (hkey _) hi, if_neg hname.1]

/-- What has the name of an entry is changed by it. The names of the entries are distinct, so that
no other entry changes it before or afterwards. -/
theorem find?_of_mem (hkey : ∀ b a, key (change b a) = key a)
    (h : Overwritten key change entries l l') (hnames : (entries.map Prod.fst).Nodup)
    (hmem : (name, b) ∈ entries) :
    l'.find? (fun a => key a = name) = (l.find? fun a => key a = name).map (change b) := by
  induction h with
  | nil => cases hmem
  | @cons first _ entries _ _ _ hi hrest ih =>
    rw [List.map_cons, List.nodup_cons] at hnames
    rcases List.mem_cons.mp hmem with heq | hmem
    · cases heq
      rw [hrest.find?_of_not_mem hkey hnames.1, find?_modify_first (hkey _) hi, if_pos rfl]
    · have hname := List.mem_map_of_mem (f := Prod.fst) hmem
      have hne : name ≠ first := fun heq => hnames.1 (heq ▸ hname)
      rw [ih hnames.2 hmem, find?_modify_first (hkey _) hi, if_neg hne]

/-- Entries whose names are all borne can be written. -/
theorem exists_of_named (hkey : ∀ b a, key (change b a) = key a)
    (hnamed : ∀ e ∈ entries, e.1 ∈ l.map key) : ∃ l', Overwritten key change entries l l' := by
  induction entries generalizing l with
  | nil => exact ⟨l, .nil l⟩
  | cons e entries ih =>
    obtain ⟨hfirst, hrest⟩ := List.forall_mem_cons.mp hnamed
    obtain ⟨a, ha, hname⟩ := List.mem_map.mp hfirst
    have hsome : (l.findIdx? fun a => key a == e.1).isSome := by
      rw [List.findIdx?_isSome]
      exact List.any_eq_true.mpr ⟨a, ha, beq_iff_eq.mpr hname⟩
    obtain ⟨i, hi⟩ := Option.isSome_iff_exists.mp hsome
    obtain ⟨l', hl'⟩ := ih (l := l.modify i (change e.2)) (by rwa [map_modify_of_kept (hkey _)])
    exact ⟨l', .cons hi hl'⟩

end Overwritten

end Overwritten

/-! ### Entries of a map -/

section ByName

variable {α : Type} {m : ByName α} {name : String} {a : α}

/-- A plan has one entry for a name. -/
theorem ByName.names_nodup : (m.toList.map Prod.fst).Nodup := by
  rw [List.Nodup, List.pairwise_map]
  exact m.distinct_keys_toList.imp fun hne heq => hne (LawfulEqCmp.compare_eq_iff_eq.mpr heq)

/-- The names of a plan are its keys. -/
theorem ByName.mem_names : name ∈ m.toList.map Prod.fst ↔ name ∈ m := by
  constructor
  · intro h
    obtain ⟨⟨_, a⟩, ha, rfl⟩ := List.mem_map.mp h
    exact ExtTreeMap.mem_iff_isSome_getElem?.mpr
      (Option.isSome_iff_exists.mpr ⟨a, ExtTreeMap.mem_toList_iff_getElem?_eq_some.mp ha⟩)
  · intro h
    obtain ⟨a, ha⟩ := Option.isSome_iff_exists.mp (ExtTreeMap.mem_iff_isSome_getElem?.mp h)
    exact List.mem_map_of_mem (f := Prod.fst) (ExtTreeMap.mem_toList_iff_getElem?_eq_some.mpr ha)

/-- A map that is written as a whole changes whatever it has an entry for. So a look-up afterwards
is the look-up before, followed by the change of the name. -/
theorem Overwritten.find?_map {β : Type} {key : β → String} {change : α → β → β} {l l' : List β}
    (hkey : ∀ a b, key (change a b) = key b) (h : Overwritten key change m.toList l l')
    (name : String) :
    l'.find? (fun b => key b = name) =
      (l.find? fun b => key b = name).map fun b => (m[name]?).elim b fun a => change a b := by
  cases ha : m[name]? with
  | none =>
    have hname : name ∉ m.toList.map Prod.fst := by
      rw [ByName.mem_names, ExtTreeMap.mem_iff_isSome_getElem?, ha]
      exact Bool.false_ne_true
    rw [h.find?_of_not_mem hkey hname]
    exact Option.map_id'.symm
  | some a =>
    exact h.find?_of_mem hkey ByName.names_nodup (ExtTreeMap.mem_toList_iff_getElem?_eq_some.mpr ha)

end ByName

/-! ### The two runs of a plan -/

/-- Writes a method of partitioning into a table. -/
def Partitioning.write (m : Partitioning) (t : Table) : Table := { t with partitioning := some m }

/-- Writing a partitioning does not rename the table. -/
theorem Partitioning.name_write (m : Partitioning) (t : Table) : (m.write t).name = t.name := rfl

/-- Nor does writing an entry rename the procedure. -/
theorem ProcedurePlan.name_write (e : ProcedurePlan) (p : Procedure) : (e.write p).name = p.name :=
  rfl

namespace Plan

variable {R : Type} {plan : Plan R} {c c' : Catalog}

/-- Entries that can be written are, and then come those behind them. -/
theorem writeTables_append {entries rest : List (String × Partitioning)} {tables : List Table}
    (h : Overwritten Table.name Partitioning.write entries c.tables tables) :
    writeTables c (entries ++ rest) = writeTables { c with tables := tables } rest := by
  induction entries generalizing c with
  | nil => cases h; rfl
  | cons e entries ih =>
    cases h with
    | cons hi hrest =>
      rw [List.cons_append, writeTables, Catalog.updateTable?, hi]
      exact ih (c := { c with tables := _ }) hrest

/-- If all its tables are there, the first half of a plan is written without an error. -/
theorem writeTables_of_overwritten {entries : List (String × Partitioning)} {tables : List Table}
    (h : Overwritten Table.name Partitioning.write entries c.tables tables) :
    writeTables c entries = ({ c with tables := tables }, .ok ()) := by
  have hall : writeTables c (entries ++ []) = ({ c with tables := tables }, .ok ()) :=
    writeTables_append h
  rwa [List.append_nil] at hall

/-- The entries of procedures are written like those of tables: once the first ones are written, the
rest are written into what came out. -/
theorem writeProcedures_append {entries rest : List (String × ProcedurePlan)}
    {procedures : List Procedure}
    (h : Overwritten Procedure.name ProcedurePlan.write entries c.procedures procedures) :
    writeProcedures c (entries ++ rest) = writeProcedures { c with procedures := procedures } rest := by
  induction entries generalizing c with
  | nil => cases h; rfl
  | cons e entries ih =>
    cases h with
    | cons hi hrest =>
      rw [List.cons_append, writeProcedures, Catalog.updateProcedure?, hi]
      exact ih (c := { c with procedures := _ }) hrest

/-- If all its procedures are there, the second half is written without an error, too. -/
theorem writeProcedures_of_overwritten {entries : List (String × ProcedurePlan)}
    {procedures : List Procedure}
    (h : Overwritten Procedure.name ProcedurePlan.write entries c.procedures procedures) :
    writeProcedures c entries = ({ c with procedures := procedures }, .ok ()) := by
  have hall : writeProcedures c (entries ++ []) = ({ c with procedures := procedures }, .ok ()) :=
    writeProcedures_append h
  rwa [List.append_nil] at hall

/-- Applying a plan is one run over the tables, and one over the procedures. -/
theorem apply_of_overwritten {tables : List Table} {procedures : List Procedure}
    (ht : Overwritten Table.name Partitioning.write plan.tables.toList c.tables tables)
    (hp : Overwritten Procedure.name ProcedurePlan.write plan.procedures.toList c.procedures
      procedures) :
    plan.apply c = ({ c with tables := tables, procedures := procedures }, .ok ()) := by
  rw [apply, writeTables_of_overwritten ht]
  exact writeProcedures_of_overwritten (c := { c with tables := tables }) hp

/-- What a plan leaves of a catalog: all it had, with the plan's entries written into what is found
under their names. -/
structure Written (plan : Plan R) (c c' : Catalog) : Prop where
  partitions : c'.partitions = c.partitions
  tableNames : c'.tables.map Table.name = c.tables.map Table.name
  procedureNames : c'.procedures.map Procedure.name = c.procedures.map Procedure.name
  table? : ∀ name, c'.table? name =
    (c.table? name).map fun t => (plan.tables[name]?).elim t fun m => m.write t
  procedure? : ∀ name, c'.procedures.find? (fun p => p.name = name) =
    (c.procedures.find? fun p => p.name = name).map fun p =>
      (plan.procedures[name]?).elim p fun e => e.write p

/-- A plan that names nothing that a catalog lacks has its two runs. -/
theorem exists_overwritten (htables : ∀ name ∈ plan.tables, name ∈ c.tables.map Table.name)
    (hprocedures : ∀ name ∈ plan.procedures, name ∈ c.procedures.map Procedure.name) :
    ∃ tables procedures,
      Overwritten Table.name Partitioning.write plan.tables.toList c.tables tables
        ∧ Overwritten Procedure.name ProcedurePlan.write plan.procedures.toList c.procedures
          procedures := by
  have ht : ∀ e ∈ plan.tables.toList, e.1 ∈ c.tables.map Table.name := fun e he =>
    htables e.1 (ByName.mem_names.mp (List.mem_map_of_mem he))
  have hp : ∀ e ∈ plan.procedures.toList, e.1 ∈ c.procedures.map Procedure.name := fun e he =>
    hprocedures e.1 (ByName.mem_names.mp (List.mem_map_of_mem he))
  obtain ⟨tables, ht⟩ := Overwritten.exists_of_named Partitioning.name_write ht
  obtain ⟨procedures, hp⟩ := Overwritten.exists_of_named ProcedurePlan.name_write hp
  exact ⟨tables, procedures, ht, hp⟩

/-- A plan that names nothing that a catalog lacks is written into it as a whole. -/
theorem apply_of_named (htables : ∀ name ∈ plan.tables, name ∈ c.tables.map Table.name)
    (hprocedures : ∀ name ∈ plan.procedures, name ∈ c.procedures.map Procedure.name) :
    ∃ c', plan.apply c = (c', .ok ()) ∧ plan.Written c c' := by
  obtain ⟨tables, procedures, ht, hp⟩ := exists_overwritten htables hprocedures
  refine ⟨_, apply_of_overwritten ht hp, ?_⟩
  exact
    { partitions := rfl
      tableNames := ht.map_of_kept Partitioning.name_write
      procedureNames := hp.map_of_kept ProcedurePlan.name_write
      table? := ht.find?_map Partitioning.name_write
      procedure? := hp.find?_map ProcedurePlan.name_write }

/-- Where names are not repeated, every procedure was there before and has its entry written into
it. -/
theorem Written.procedure_of_mem (h : plan.Written c c')
    (hnames : (c.procedures.map Procedure.name).Nodup) {p' : Procedure} (hp' : p' ∈ c'.procedures) :
    ∃ p ∈ c.procedures, p.name = p'.name ∧
      p' = (plan.procedures[p'.name]?).elim p fun e => e.write p := by
  have hfind := Catalog.find?_of_nodup (h.procedureNames ▸ hnames) hp'
  rw [h.procedure?] at hfind
  obtain ⟨p, hp, heq⟩ := Option.map_eq_some_iff.mp hfind
  exact ⟨p, List.mem_of_find?_eq_some hp,
    of_decide_eq_true (List.find?_some (p := fun p : Procedure => p.name = p'.name) hp), heq.symm⟩

end Plan

end TxnPath
