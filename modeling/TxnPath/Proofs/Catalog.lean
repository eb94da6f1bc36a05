import Mathlib.Data.List.Nodup
import TxnPath.Catalog

/-!
# `TxnPath.Proofs.Catalog`: looking procedures up

Procedures are looked up by number and by name, and the first that matches is taken. In a
valid catalog numbers are not repeated, so that every procedure is found under its own number
(`procedure_of_mem`); the same goes for names where these are not repeated.
-/

set_option autoImplicit false

namespace TxnPath

/-- The statement that is found for a number has this number. -/
theorem Procedure.statement?_id {p : Procedure} {id : StatementId} {s : Statement}
    (h : p.statement? id = some s) : s.id = id := by
  have hfind : ∀ {s}, p.statements.find? (fun s => s.id = id) = some s → s.id = id := fun h =>
    of_decide_eq_true (List.find?_some (p := fun s : Statement => s.id = id) h)
  rw [statement?] at h
  split at h
  · split at h
    case isTrue hid =>
      cases h
      exact hid
    case isFalse => exact hfind h
  · exact hfind h

namespace Catalog

variable {c : Catalog} {p : Procedure}

/-- Where a key is not repeated, whoever has it is found by it. -/
theorem find?_of_nodup {α β : Type} [DecidableEq β] {key : α → β} {l : List α}
    (hnodup : (l.map key).Nodup) {a : α} (ha : a ∈ l) :
    l.find? (fun b => key b = key a) = some a := by
  induction l with
  | nil => cases ha
  | cons b l ih =>
    rw [List.map_cons, List.nodup_cons] at hnodup
    rcases List.mem_cons.mp ha with rfl | ha
    · exact List.find?_cons_of_pos (decide_eq_true rfl)
    · have hne : ¬ key b = key a := fun heq =>
        hnodup.1 (heq ▸ List.mem_map_of_mem ha)
      rw [List.find?_cons_of_neg (by simpa using hne)]
      exact ih hnodup.2 ha

/-- The procedure that is found for a number has this number. -/
theorem procedure_ok {id : ProcedureId} (h : c.procedure id = .ok p) :
    p ∈ c.procedures ∧ p.id = id := by
  rw [procedure] at h
  split at h
  case h_1 hfind =>
    cases h
    exact ⟨List.mem_of_find?_eq_some hfind,
      of_decide_eq_true (List.find?_some (p := fun p : Procedure => p.id = id) hfind)⟩
  case h_2 => cases h

/-- The procedure that is found for a name has this name. -/
theorem procedureNamed_ok {name : String} (h : c.procedureNamed name = .ok p) :
    p ∈ c.procedures ∧ p.name = name := by
  rw [procedureNamed] at h
  split at h
  case h_1 hfind =>
    cases h
    exact ⟨List.mem_of_find?_eq_some hfind,
      of_decide_eq_true (List.find?_some (p := fun p : Procedure => p.name = name) hfind)⟩
  case h_2 => cases h

/-- Procedures that pass have numbers of their own. The numbers seen so far are a parameter, since
they grow along the list. -/
theorem checkProcedures_ok {seen : List ProcedureId} {ps : List Procedure}
    (h : c.checkProcedures seen ps = .ok ()) :
    (ps.map Procedure.id).Nodup ∧ ∀ p ∈ ps, p.id ∉ seen := by
  induction ps generalizing seen with
  | nil => exact ⟨.nil, nofun⟩
  | cons p ps ih =>
    rw [checkProcedures] at h
    split at h
    · cases h
    case isFalse hnew =>
      split at h
      · cases h
      · split at h
        · cases h
        · obtain ⟨hnodup, hrest⟩ := ih h
          refine ⟨List.nodup_cons.mpr ⟨fun hmem => ?_, hnodup⟩, List.forall_mem_cons.mpr
            ⟨hnew, fun q hq hseen => hrest q hq (List.mem_cons_of_mem _ hseen)⟩⟩
          obtain ⟨q, hq, heq⟩ := List.mem_map.mp hmem
          exact hrest q hq (heq ▸ List.mem_cons_self)

/-- Statements that pass use tables that there are. The numbers that were seen so far do not matter
for this, and so are left general. -/
theorem checkStatements_ok {seen : List StatementId} {ss : List Statement}
    (h : c.checkStatements p seen ss = .ok ()) {s : Statement} (hs : s ∈ ss) {name : String}
    (hname : name ∈ s.tables) : (c.table? name).isSome := by
  induction ss generalizing seen with
  | nil => cases hs
  | cons first ss ih =>
    rw [checkStatements] at h
    split at h
    · cases h
    · split at h
      · cases h
      case h_2 hfind =>
        rcases List.mem_cons.mp hs with rfl | hs
        · simpa [Option.isSome_iff_ne_none] using List.find?_eq_none.mp hfind name hname
        · exact ih h hs

/-- In a valid catalog there are partitions. -/
theorem partitions_pos (hvalid : c.validate = .ok ()) : 0 < c.partitions := by
  rw [validate] at hvalid
  split at hvalid
  · cases hvalid
  case isFalse hzero => exact Nat.pos_of_ne_zero hzero

/-- In a valid catalog every statement uses tables that there are. A catalog is checked procedure by
procedure, and its statements with each. -/
theorem isSome_table? (hvalid : c.validate = .ok ()) (hp : p ∈ c.procedures) {s : Statement}
    (hs : s ∈ p.statements) {name : String} (hname : name ∈ s.tables) :
    (c.table? name).isSome := by
  -- The check goes through the procedures one after the other, and does not come to an end before
  -- all their statements have passed.
  have hall : ∀ {seen ps}, c.checkProcedures seen ps = .ok () → p ∈ ps →
      (c.table? name).isSome := by
    intro seen ps h hp
    induction ps generalizing seen with
    | nil => cases hp
    | cons q ps ih =>
      rw [checkProcedures] at h
      split at h
      · cases h
      · split at h
        · cases h
        · split at h
          · cases h
          case h_2 hcheck =>
            rcases List.mem_cons.mp hp with rfl | hp
            · exact checkStatements_ok hcheck hs hname
            · exact ih h hp
  rw [validate] at hvalid
  split at hvalid
  · cases hvalid
  · split at hvalid
    · cases hvalid
    · exact hall ‹_› hp

/-- In a valid catalog every procedure is found by its number. -/
theorem procedure_of_mem (hvalid : c.validate = .ok ()) (hp : p ∈ c.procedures) :
    c.procedure p.id = .ok p := by
  have hnodup : (c.procedures.map Procedure.id).Nodup := by
    rw [validate] at hvalid
    split at hvalid
    · cases hvalid
    · split at hvalid
      · cases hvalid
      · exact (checkProcedures_ok ‹_›).1
  rw [procedure, find?_of_nodup hnodup hp]

/-- Where names are not repeated, every procedure is found by its name. -/
theorem procedureNamed_of_mem (hnames : (c.procedures.map Procedure.name).Nodup)
    (hp : p ∈ c.procedures) : c.procedureNamed p.name = .ok p := by
  rw [procedureNamed, find?_of_nodup hnames hp]

end Catalog

end TxnPath
