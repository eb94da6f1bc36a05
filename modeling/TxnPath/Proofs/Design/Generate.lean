import TxnPath.Design.Planner
import TxnPath.Proofs.Design.Apply

/-!
# `TxnPath.Proofs.Design.Generate`: what a plan names

A plan that is made names the tables and the procedures of its catalog and nothing else
(`Planner.Named`), so that it can be written into the catalog that it was made for
(`Planner.generate_apply`). Where procedures have names of their own, each is planned for itself,
by the tables alone.
-/

set_option autoImplicit false

namespace TxnPath

open Std (ExtTreeMap LawfulEqCmp)

namespace Planner

variable {R : Type} [Scalar R] {d : Planner R} {plan : Plan R}

/-- Planning tables names these, beside those that were planned before. It goes along the list; what
has been planned so far grows with it. -/
theorem mem_planTables {ts : List Table} {planned tables : ByName Partitioning} {memory total : R}
    (h : d.planTables ts planned memory = .ok (tables, total)) (name : String) :
    name ∈ tables ↔ name ∈ planned ∨ name ∈ ts.map Table.name := by
  induction ts generalizing planned memory with
  | nil =>
    cases h
    simp
  | cons t ts ih =>
    rw [planTables] at h
    split at h
    · cases h
    · rw [ih h, ExtTreeMap.mem_insert, LawfulEqCmp.compare_eq_iff_eq, List.map_cons, List.mem_cons,
        eq_comm (a := name)]
      tauto

/-- The names in a map that a list was put into one by one. -/
theorem mem_foldl_insert {α β : Type} {key : α → String} {f : α → β} {l : List α} {m : ByName β}
    {name : String} (h : name ∈ l.foldl (fun m a => m.insert (key a) (f a)) m) :
    name ∈ m ∨ name ∈ l.map key := by
  induction l generalizing m with
  | nil => exact .inl h
  | cons a l ih =>
    rcases ih h with hm | hl
    · rw [ExtTreeMap.mem_insert, LawfulEqCmp.compare_eq_iff_eq] at hm
      exact hm.elim (fun ha => .inr (ha ▸ List.mem_cons_self)) .inl
    · exact .inr (List.mem_cons_of_mem _ hl)

/-- Of procedures with names of their own each finds its own entry. Without distinct names it would
find that of the last one of its name. -/
theorem getElem?_foldl_insert {α β : Type} {key : α → String} (f : α → β) {l : List α}
    (hnames : (l.map key).Nodup) (m : ByName β) (name : String) :
    (l.foldl (fun m a => m.insert (key a) (f a)) m)[name]? =
      ((l.find? fun a => key a = name).map f).or m[name]? := by
  induction l generalizing m with
  | nil => rfl
  | cons a l ih =>
    rw [List.map_cons, List.nodup_cons] at hnames
    rw [List.foldl_cons, ih hnames.2, ExtTreeMap.getElem?_insert, List.find?_cons]
    by_cases ha : key a = name
    · have hnone : l.find? (fun b => key b = name) = none := by
        rw [List.find?_eq_none]
        intro b hb heq
        exact hnames.1 (ha.trans (of_decide_eq_true heq).symm ▸ List.mem_map_of_mem hb)
      simp [ha, hnone]
    · simp [ha, LawfulEqCmp.compare_eq_iff_eq]

/-- A plan for a planner's catalog: it names what the catalog has, and plans every procedure by the
tables. -/
structure Named (d : Planner R) (plan : Plan R) : Prop where
  tables : ∀ name, name ∈ plan.tables ↔ name ∈ d.catalog.tables.map Table.name
  procedures : plan.procedures = d.catalog.procedures.foldl
    (fun m p => m.insert p.name (d.planProcedure { plan with procedures := ∅ } p)) ∅

/-- A plan is generated from its tables: those that fit into memory are planned first, and every
procedure by them. -/
theorem generate_eq_ok_iff : d.generate = .ok (.ok plan) ↔
    d.planTables d.catalog.tables ∅ 0 = .ok (plan.tables, plan.memory) ∧ plan.memory ≤ 1
      ∧ plan.procedures = d.catalog.procedures.foldl
        (fun m p => m.insert p.name (d.planProcedure { plan with procedures := ∅ } p)) ∅ := by
  rw [generate]
  constructor
  · intro h
    -- The tables are planned, and then it is checked whether they fit.
    split at h
    · cases h
    case h_2 tables memory htables =>
      split at h
      case isTrue hfits =>
        cases h
        exact ⟨htables, hfits, rfl⟩
      case isFalse => cases h
  · rintro ⟨htables, hfits, hprocedures⟩
    rw [htables]
    dsimp only
    rw [if_pos hfits, ← hprocedures]

/-- What is generated is a plan for the catalog. -/
theorem generate_named (h : d.generate = .ok (.ok plan)) : d.Named plan := by
  obtain ⟨htables, _, hprocedures⟩ := generate_eq_ok_iff.mp h
  refine ⟨fun name => ?_, hprocedures⟩
  simpa using mem_planTables htables name

/-- A plan for a catalog names nothing that the catalog lacks. -/
theorem Named.covered (h : d.Named plan) :
    (∀ name ∈ plan.tables, name ∈ d.catalog.tables.map Table.name)
      ∧ ∀ name ∈ plan.procedures, name ∈ d.catalog.procedures.map Procedure.name := by
  refine ⟨fun name hname => (h.tables name).mp hname, fun name hname => ?_⟩
  rw [h.procedures] at hname
  exact (mem_foldl_insert hname).resolve_left ExtTreeMap.not_mem_empty

/-- A plan can be written into the catalog that it was made for. -/
theorem generate_apply (h : d.generate = .ok (.ok plan)) :
    ∃ c', plan.apply d.catalog = (c', .ok ()) ∧ plan.Written d.catalog c' :=
  Plan.apply_of_named (generate_named h).covered.1 (generate_named h).covered.2

/-- Where procedures have names of their own, each of them finds in the plan what was planned for
it. -/
theorem Named.procedure_of_mem (h : d.Named plan)
    (hnames : (d.catalog.procedures.map Procedure.name).Nodup) {p : Procedure}
    (hp : p ∈ d.catalog.procedures) :
    plan.procedures[p.name]? = some (d.planProcedure { plan with procedures := ∅ } p) := by
  rw [h.procedures, getElem?_foldl_insert _ hnames, Catalog.find?_of_nodup hnames hp]
  rfl

end Planner

end TxnPath
