import Mathlib.Data.List.Induction
import TxnPath.Proofs.Design.Generate
import TxnPath.Proofs.Outcome

/-!
# `TxnPath.Proofs.Design.Replanning`: planning is stable under its own output

A plan is made from a catalog and written into it, so that the next plan is made from what the
last one left. Tables are planned by their names and primary keys, which no plan writes
(`planTables_unplanned`). A procedure is planned by what it has, and what it has of this after its
entry was written gives the same entry (`planProcedure_write`). Of several procedures of one name
the last one has the entry and the first one gets it written, so the argument runs over all
procedures at once: each of them is left alone or gets the entry of its name (`Rewritten`), and the
last of a name gets its own in either case (`foldl_insert_rewritten`).
-/

set_option autoImplicit false

namespace TxnPath

open Std (ExtTreeMap LawfulEqCmp)

/-! ### What no plan writes -/

/-- A table without what a plan writes into it. -/
def Table.unplanned (t : Table) : Table := { t with partitioning := none }

/-- A procedure without what a plan writes into it. -/
def Procedure.unplanned (p : Procedure) : Procedure :=
  { p with singlePartition := false, routingParam := none }

/-- A catalog without what a plan writes into it. -/
def Catalog.unplanned (c : Catalog) : Catalog :=
  ⟨c.partitions, c.tables.map Table.unplanned, c.procedures.map Procedure.unplanned⟩

/-- Writing a partitioning leaves what tables are planned by. -/
theorem Partitioning.unplanned_write (m : Partitioning) (t : Table) :
    (m.write t).unplanned = t.unplanned := rfl

/-- Writing an entry leaves what procedures have apart from their plan. -/
theorem ProcedurePlan.unplanned_write (e : ProcedurePlan) (p : Procedure) :
    (e.write p).unplanned = p.unplanned := rfl

/-- Writing a partitioning twice is writing it once. -/
theorem Partitioning.write_write (m : Partitioning) (t : Table) : m.write (m.write t) = m.write t :=
  rfl

/-- So is writing an entry twice. -/
theorem ProcedurePlan.write_write (e : ProcedurePlan) (p : Procedure) :
    e.write (e.write p) = e.write p := by
  simp only [ProcedurePlan.write, Procedure.mk.injEq, true_and]
  cases e.routingParam with
  | none => rfl
  | some i => rfl

/-! ### Writing the same entries again -/

/-- Something was left alone, or got the entry that a map has for its name. -/
def Rewritten {α β : Type} (key : α → String) (change : β → α → α) (m : ByName β) (a a' : α) : Prop :=
  a' = a ∨ ∃ b, m[key a]? = some b ∧ a' = change b a

namespace Overwritten

variable {α β : Type} {key : α → String} {change : β → α → α} {entries : List (String × β)}
  {l l' : List α}

/-- Entries that are all written already change nothing. Each of them finds a bearer of its name,
which it would leave as it is. -/
theorem refl_of_fixed
    (hfixed : ∀ e ∈ entries, ∃ a, l.find? (fun a => key a = e.1) = some a ∧ change e.2 a = a) :
    Overwritten key change entries l l := by
  induction entries with
  | nil => exact .nil l
  | cons e entries ih =>
    obtain ⟨⟨a, ha, hwritten⟩, hrest⟩ := List.forall_mem_cons.mp hfixed
    obtain ⟨i, hi⟩ : ∃ i, l.findIdx? (fun a => key a == e.1) = some i := by
      refine Option.isSome_iff_exists.mp ?_
      rw [List.findIdx?_isSome]
      refine List.any_eq_true.mpr ⟨a, List.mem_of_find?_eq_some ha, beq_iff_eq.mpr ?_⟩
      exact of_decide_eq_true (List.find?_some (p := fun a => decide (key a = e.1)) ha)
    refine .cons hi ?_
    rw [modify_first_eq_self hi ha hwritten]
    exact ih hrest

/-- Every entry of a run has a bearer of its name. A later entry finds it in a list that was changed
already, in which the names are the same. -/
theorem isSome_find? (hkey : ∀ b a, key (change b a) = key a)
    (h : Overwritten key change entries l l') {e : String × β} (he : e ∈ entries) :
    (l.find? fun a => key a = e.1).isSome := by
  induction h with
  | nil => cases he
  | @cons name b entries l l' i hi _ ih =>
    rcases List.mem_cons.mp he with rfl | he
    · have hsome : (l.findIdx? fun a => key a == name).isSome := by rw [hi]; rfl
      rw [List.findIdx?_isSome] at hsome
      simpa [List.find?_isSome] using List.any_eq_true.mp hsome
    · have hlater := ih he
      rw [find?_modify_first (hkey _) hi] at hlater
      split at hlater
      · simpa using hlater
      · exact hlater

/-- A map that was written as a whole is written again without a change. -/
theorem again {m : ByName β} (hkey : ∀ b a, key (change b a) = key a)
    (hagain : ∀ b a, change b (change b a) = change b a)
    (h : Overwritten key change m.toList l l') : Overwritten key change m.toList l' l' := by
  refine refl_of_fixed fun e he => ?_
  obtain ⟨a, ha⟩ := Option.isSome_iff_exists.mp (h.isSome_find? hkey he)
  refine ⟨change e.2 a, ?_, hagain e.2 a⟩
  rw [h.find?_of_mem hkey ByName.names_nodup he, ha]
  rfl

/-- Whatever stands in a list was left alone, or got the entry of its name. It is by the entries
that are written, one after the other; an entry that is named twice is written twice, and so it
matters that this is the same as writing it once. -/
theorem rewritten {m : ByName β} (hkey : ∀ b a, key (change b a) = key a)
    (hagain : ∀ b a, change b (change b a) = change b a)
    (hentries : ∀ e ∈ entries, m[e.1]? = some e.2) (h : Overwritten key change entries l l') :
    List.Forall₂ (Rewritten key change m) l l' := by
  induction h with
  | nil l => exact List.forall₂_same.mpr fun a _ => .inl rfl
  | @cons name b entries l l' i hi _ ih =>
    obtain ⟨hentry, hrest⟩ := List.forall_mem_cons.mp hentries
    obtain ⟨hlength, hlater⟩ := List.forall₂_iff_get.mp (ih hrest)
    rw [List.length_modify] at hlength
    obtain ⟨hlt, hname, _⟩ := List.findIdx?_eq_some_iff_getElem.mp hi
    refine List.forall₂_iff_get.mpr ⟨hlength, fun j hj hj' => ?_⟩
    have hstep := hlater j (by rwa [List.length_modify]) hj'
    simp only [List.get_eq_getElem, List.getElem_modify] at hstep ⊢
    -- The first bearer of the name gets the entry now; a later run over the same map finds it
    -- written already.
    by_cases hij : i = j
    · subst hij
      have hfound : m[key l[i]]? = some b := by rw [eq_of_beq hname, hentry]
      rw [if_pos rfl] at hstep
      refine .inr ⟨b, hfound, ?_⟩
      rcases hstep with heq | ⟨b', hb', heq⟩
      · exact heq
      · rw [hkey, hfound] at hb'
        cases hb'
        rw [heq, hagain]
    · rwa [if_neg hij] at hstep

end Overwritten

/-! ### Entries of the last of a name -/

section Last

variable {α β : Type} {key : α → String} {change : β → α → α} {f : α → β} {l l' : List α}

/-- A map that a list was put into one by one has the entry of the last of each name. -/
theorem ByName.getElem?_foldl_insert_last (m : ByName β) (name : String) :
    (l.foldl (fun m a => m.insert (key a) (f a)) m)[name]? =
      ((l.reverse.find? fun a => key a = name).map f).or m[name]? := by
  induction l using List.reverseRecOn with
  | nil => rfl
  | append_singleton l a ih =>
    rw [List.foldl_append, List.foldl_cons, List.foldl_nil, ExtTreeMap.getElem?_insert, ih,
      List.reverse_append, List.reverse_singleton, List.singleton_append, List.find?_cons]
    by_cases ha : key a = name
    · simp [ha]
    · simp [ha, LawfulEqCmp.compare_eq_iff_eq]

/-- Lists that agree place by place on names find what they have at the same place. Either both have
none of the name, or what is found in the second is what is found in the first, perhaps rewritten.
-/
theorem find?_eq_of_rewritten {m : ByName β} (hkey : ∀ b a, key (change b a) = key a)
    (h : List.Forall₂ (Rewritten key change m) l l') (name : String) :
    (l.find? (fun a => key a = name) = none ∧ l'.find? (fun a => key a = name) = none)
      ∨ ∃ a a', l.find? (fun a => key a = name) = some a
        ∧ l'.find? (fun a => key a = name) = some a' ∧ Rewritten key change m a a' := by
  induction h with
  | nil => exact .inl ⟨rfl, rfl⟩
  | @cons a a' l l' ha _ ih =>
    have hname : key a' = key a := by
      rcases ha with rfl | ⟨b, _, rfl⟩
      · rfl
      · exact hkey b a
    rw [List.find?_cons, List.find?_cons, hname]
    by_cases hfirst : key a = name
    · simp only [hfirst, decide_true]
      exact .inr ⟨a, a', rfl, rfl, ha⟩
    · simpa only [hfirst, decide_false] using ih

/-- Where writing an entry does not change what entry is made, a map made from a list is made again
from the list that it was written into. -/
theorem foldl_insert_rewritten (hkey : ∀ b a, key (change b a) = key a)
    (hsame : ∀ a, f (change (f a) a) = f a)
    (h : List.Forall₂
      (Rewritten key change (l.foldl (fun m a => m.insert (key a) (f a)) ∅)) l l') :
    l'.foldl (fun m a => m.insert (key a) (f a)) (∅ : ByName β)
      = l.foldl (fun m a => m.insert (key a) (f a)) ∅ := by
  refine ExtTreeMap.ext_getElem? fun {name} => ?_
  have hlast : ∀ name, (l.foldl (fun (m : ByName β) a => m.insert (key a) (f a)) ∅)[name]?
      = ((l.reverse.find? fun a => key a = name).map f).or (∅ : ByName β)[name]? :=
    ByName.getElem?_foldl_insert_last ∅
  rw [hlast, ByName.getElem?_foldl_insert_last]
  rcases find?_eq_of_rewritten hkey (List.forall₂_reverse_iff.mpr h) name with
    ⟨hnone, hnone'⟩ | ⟨a, a', ha, ha', hrewritten⟩
  · rw [hnone, hnone']
  · rw [ha, ha', Option.map_some, Option.map_some]
    -- The last of the name is the one that the entry was made from.
    have hname : key a = name := of_decide_eq_true (List.find?_some (p := fun a => key a = name) ha)
    rcases hrewritten with rfl | ⟨b, hb, rfl⟩
    · rfl
    · rw [hlast, hname, ha, Option.map_some, Option.some_or] at hb
      cases hb
      rw [hsame]

end Last

/-! ### Planning again -/

namespace Planner

variable {R : Type} [Scalar R] {d : Planner R} {plan : Plan R}

/-- A planner for another catalog. -/
def withCatalog (d : Planner R) (c : Catalog) : Planner R := { d with catalog := c }

/-- Tables are planned by what no plan writes. Of two catalogs that differ in what a plan has
written, both give the same plan, table by table and with the memory left over. -/
theorem planTables_unplanned {c : Catalog} (hpartitions : c.partitions = d.catalog.partitions)
    {ts ts' : List Table} (hts : ts'.map Table.unplanned = ts.map Table.unplanned)
    (planned : ByName Partitioning) (memory : R) :
    (d.withCatalog c).planTables ts' planned memory = d.planTables ts planned memory := by
  induction ts generalizing ts' planned memory with
  | nil =>
    rw [List.map_nil, List.map_eq_nil_iff] at hts
    rw [hts, planTables, planTables]
  | cons t ts ih =>
    obtain ⟨t', ts', rfl, ht, hts⟩ := List.map_eq_cons_iff.mp hts
    have hname : t'.name = t.name := by
      show t'.unplanned.name = t.unplanned.name
      rw [ht]
    have hkey : t'.primaryKey = t.primaryKey := by
      show t'.unplanned.primaryKey = t.unplanned.primaryKey
      rw [ht]
    -- How a table is spread depends on its name and primary key, and how much it takes on this and
    -- on statistics.
    have hmethod : ∀ s, (d.withCatalog c).method t' s = d.method t s := fun s => by
      rw [method, method, hname, hkey]
      rfl
    have hload : ∀ m s, (d.withCatalog c).load m s = d.load m s := fun m s => by
      cases m with
      | replicated => rfl
      | hash column =>
        rw [load, load]
        simp only [withCatalog, hpartitions]
        rfl
    have hstatistics : (d.withCatalog c).statistics = d.statistics := rfl
    rw [planTables, planTables, hname, hstatistics]
    cases d.statistics.table t.name with
    | error e => rfl
    | ok s =>
      dsimp only
      rw [hmethod, hload, ih hts]

/-- What a plan writes into a procedure leaves the plan for it as it was. The one thing that is
written and read again is the routing parameter, where it is not searched for: there it is written
as it was. -/
theorem planProcedure_write (p : Procedure) :
    d.planProcedure plan ((d.planProcedure plan p).write p) = d.planProcedure plan p := by
  cases hsystem : p.isSystem with
  | true => simp only [planProcedure, ProcedurePlan.write, hsystem, if_true, Option.or_self]
  | false =>
    cases hsearch : d.hints.searchParameters && !p.params.isEmpty with
    | true =>
      -- The parameter is looked for, and is found by what no plan writes.
      have hplan : ∀ p' : Procedure, p'.isSystem = false → p'.params = p.params →
          d.planProcedure plan p' = ⟨some (d.bestParameter p' plan),
            d.isSingle p' (some (d.bestParameter p' plan)) plan⟩ := fun p' hsystem' hparams => by
        simp only [planProcedure, hsystem', hparams, hsearch, Bool.false_eq_true, if_false, if_true]
      rw [hplan p hsystem rfl, hplan (ProcedurePlan.write _ p) hsystem rfl]
      rfl
    | false =>
      -- The parameter is kept, and written as it was.
      have hplan : ∀ p' : Procedure, p'.isSystem = false → p'.params = p.params →
          d.planProcedure plan p' = ⟨p'.routingParam, d.isSingle p' p'.routingParam plan⟩ :=
        fun p' hsystem' hparams => by
          simp only [planProcedure, hsystem', hparams, hsearch, Bool.false_eq_true, if_false]
      rw [hplan p hsystem rfl, hplan (ProcedurePlan.write _ p) hsystem rfl]
      simp only [ProcedurePlan.write, Option.or_self]
      rfl

/-- Planning is stable under its own output. A plan that is made for a catalog is written into it as
a whole. Writing it again changes nothing, the same plan is made for what it left, and all it left
different are the partitioning of tables and the flag and the routing parameter of procedures. -/
theorem generate_stable (hplan : d.generate = .ok (.ok plan)) :
    ∃ c', plan.apply d.catalog = (c', .ok ()) ∧ plan.apply c' = (c', .ok ())
      ∧ (d.withCatalog c').generate = .ok (.ok plan) ∧ c'.unplanned = d.catalog.unplanned := by
  obtain ⟨htables, hfits, hprocedures⟩ := generate_eq_ok_iff.mp hplan
  obtain ⟨tables, procedures, ht, hp⟩ := Plan.exists_overwritten
    (generate_named hplan).covered.1 (generate_named hplan).covered.2
  have hunplanned : tables.map Table.unplanned = d.catalog.tables.map Table.unplanned :=
    ht.map_of_kept Partitioning.unplanned_write
  have hagain := Plan.apply_of_overwritten
    (c := { d.catalog with tables := tables, procedures := procedures })
    (ht.again Partitioning.name_write Partitioning.write_write)
    (hp.again ProcedurePlan.name_write ProcedurePlan.write_write)
  refine ⟨_, Plan.apply_of_overwritten ht hp, hagain, ?_, ?_⟩
  -- Tables are planned as before. Of the procedures each is left alone or has got the entry of its
  -- name, which gives the same entries again.
  · have hentries : ∀ e ∈ plan.procedures.toList, plan.procedures[e.1]? = some e.2 := fun e he =>
      ExtTreeMap.mem_toList_iff_getElem?_eq_some.mp he
    have hrewritten := hp.rewritten ProcedurePlan.name_write ProcedurePlan.write_write hentries
    rw [hprocedures] at hrewritten
    have hsame := foldl_insert_rewritten ProcedurePlan.name_write planProcedure_write hrewritten
    refine generate_eq_ok_iff.mpr ⟨?_, hfits, ?_⟩
    · exact (planTables_unplanned (c := { d.catalog with tables := tables, procedures := procedures })
        rfl hunplanned ∅ 0).trans htables
    · rw [hprocedures]
      exact hsame.symm
  · exact congrArg₂ (Catalog.mk d.catalog.partitions) hunplanned
      (hp.map_of_kept ProcedurePlan.unplanned_write)

/-- Withdrawals at the counter and at the machine have one name and change one account. They are
flagged and routed as given. -/
def withdrawalAt (id : ProcedureId) (single : Bool) (routing : Option Nat) : Procedure :=
  ⟨id, "withdraw", [⟨"amount", false⟩, ⟨"account", false⟩],
    [⟨0, "change", .update, ["ACCOUNTS"], [none, some ⟨"ACCOUNTS", "ID"⟩]⟩], false, single, routing⟩

/-- A branch with an account table, whose withdrawals at the counter are as given. Those at the machine
come last, so that the entry of the name is made for them. An audit belongs to the system. -/
def branch (accounts : Option Partitioning) (counter : Procedure) : Catalog :=
  ⟨2, [⟨"ACCOUNTS", ["ID", "BALANCE"], ["ID"], accounts⟩],
    [counter, ⟨7, "audit", [], [⟨0, "sum", .select, ["ACCOUNTS"], []⟩], true, true, none⟩,
      withdrawalAt 1 false none]⟩

/-- Withdrawals at the machine were seen to change the account that is their second argument. -/
def branchPlanner : Planner Rat :=
  let c := branch none (withdrawalAt 0 false none)
  ⟨c, .ofSizes c fun _ => none, .ofList [⟨1, 0, 0, 1, 1, none, 1⟩],
    { Hints.empty with searchParameters := true }⟩

/-- The entry of the machine is written into the counter, and once more it makes no difference. -/
theorem generate_stable_branch :
    ∃ plan, branchPlanner.generate = .ok (.ok plan)
      ∧ plan.apply branchPlanner.catalog =
        (branch (some (.hash "ID")) (withdrawalAt 0 true (some 1)), .ok ())
      ∧ plan.apply (branch (some (.hash "ID")) (withdrawalAt 0 true (some 1))) =
        (branch (some (.hash "ID")) (withdrawalAt 0 true (some 1)), .ok ())
      ∧ (branchPlanner.withCatalog
          (branch (some (.hash "ID")) (withdrawalAt 0 true (some 1)))).generate = .ok (.ok plan) := by
  have hrun : ((branchPlanner.generate.toOption.bind Except.toOption).map fun plan : Plan Rat =>
      (plan.apply branchPlanner.catalog).1)
        = some (branch (some (.hash "ID")) (withdrawalAt 0 true (some 1))) := by
    decide +kernel
  obtain ⟨plan, hsome, hc'⟩ := Option.map_eq_some_iff.mp hrun
  obtain ⟨result, hresult, hsome⟩ := Option.bind_eq_some_iff.mp hsome
  have hplan : branchPlanner.generate = .ok (.ok plan) := by
    rw [Outcome.of_toOption hresult, Outcome.of_toOption hsome]
  obtain ⟨c', happly, hagain, hsame, _⟩ := generate_stable hplan
  -- The catalog evaluated is the one that the plan leaves.
  rw [happly] at hc'
  subst hc'
  exact ⟨plan, hplan, happly, hagain, hsame⟩

end Planner

end TxnPath
