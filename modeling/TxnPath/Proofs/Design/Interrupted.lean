import TxnPath.Proofs.Design.Apply

/-!
# `TxnPath.Proofs.Design.Interrupted`: plans that name what a catalog lacks

A plan is written entry by entry, tables before procedures and both by ascending name, and the first
name that the catalog lacks ends it. What was written before stays written, so applying a plan is
not all or nothing (`Plan.apply_halfway`). `Plan.written` says place by place what a catalog is with
all entries of a plan in it, and `Plan.StopsAt` which part of a plan comes before the name that
ends it. A plan is written as a whole, or as far as this part goes (`Plan.apply_written`).
-/

set_option autoImplicit false

namespace TxnPath

open Std (ExtTreeMap OrientedCmp ReflCmp)

/-! ### Lists with entries written into them -/

section Overwrite

variable {α β : Type} {key : α → String} {change : β → α → α} {m : ByName β} {l l' : List α}

/-- A list with the entries of a map in it. Whatever is the first of its name gets the entry of the
name, if there is one; all else stays, and so does the order. -/
def overwrite (key : α → String) (change : β → α → α) (m : ByName β) (l : List α) : List α :=
  l.mapIdx fun i a =>
    if key a ∈ (l.map key).take i then a else (m[key a]?).elim a fun b => change b a

/-- The first of a name is what is found under the name. -/
theorem find?_of_first {i : Nat} {a : α} (ha : l[i]? = some a)
    (hfirst : key a ∉ (l.map key).take i) : l.find? (fun b => key b = key a) = some a := by
  obtain ⟨hi, rfl⟩ := List.getElem?_eq_some_iff.mp ha
  rw [List.find?_eq_some_iff_append]
  refine ⟨decide_eq_true rfl, l.take i, l.drop (i + 1), ?_, fun b hb => ?_⟩
  · rw [← List.drop_eq_getElem_cons hi, List.take_append_drop]
  · rw [← List.map_take] at hfirst
    rw [Bool.not_eq_true', decide_eq_false_iff_not]
    exact fun heq => hfirst (heq ▸ List.mem_map_of_mem hb)

/-- Under a name that nothing bears there is no position. -/
theorem findIdx?_of_not_mem_map {name : String} (hname : name ∉ l.map key) :
    l.findIdx? (fun a => key a == name) = none := by
  rw [List.findIdx?_eq_none_iff]
  exact fun a ha => beq_eq_false_iff_ne.mpr fun h => hname (h ▸ List.mem_map_of_mem ha)

/-- Under a name that is borne something is found. -/
theorem exists_find?_of_mem_map {name : String} (hname : name ∈ l.map key) :
    ∃ a, l.find? (fun a => key a = name) = some a := by
  obtain ⟨a, ha, rfl⟩ := List.mem_map.mp hname
  exact Option.isSome_iff_exists.mp (List.find?_isSome.mpr ⟨a, ha, decide_eq_true rfl⟩)

namespace Overwritten

variable {entries : List (String × β)}

/-- What is not the first of its name stays. A look-up by name never reaches it, and so a plan does
not write it either. -/
theorem getElem?_of_seen (hkey : ∀ b a, key (change b a) = key a)
    (h : Overwritten key change entries l l') {i : Nat} {a : α} (ha : l[i]? = some a)
    (hseen : key a ∈ (l.map key).take i) : l'[i]? = some a := by
  induction h with
  | nil => exact ha
  | @cons name b entries l l' j hi hrest ih =>
    -- The run writes the first of a name, and another of this name comes before.
    have hne : j ≠ i := by
      rintro rfl
      obtain ⟨hj, hname, hbefore⟩ := List.findIdx?_eq_some_iff_getElem.mp hi
      obtain ⟨k, hk, heq⟩ := List.mem_take_iff_getElem.mp hseen
      obtain rfl : l[j] = a := Option.some.inj ((List.getElem?_eq_getElem hj).symm.trans ha)
      rw [List.getElem_map] at heq
      exact hbefore k (Nat.lt_of_lt_of_le hk (Nat.min_le_left _ _)) (by rw [heq]; exact hname)
    refine ih ?_ ?_
    · rw [List.getElem?_modify, ha]
      simp [hne]
    · rwa [map_modify_of_kept (hkey b)]

/-- A map that is written as a whole is in what it leaves, place by place. Each entry that is the
first of its name has been looked up and changed, and the others are left alone. -/
theorem eq_overwrite (hkey : ∀ b a, key (change b a) = key a)
    (h : Overwritten key change m.toList l l') : l' = overwrite key change m l := by
  have hnames : l'.map key = l.map key := h.map_of_kept hkey
  refine List.ext_getElem? fun i => ?_
  rw [overwrite, List.getElem?_mapIdx]
  have hname := congrArg (·[i]?) hnames
  simp only [List.getElem?_map] at hname
  cases ha : l[i]? with
  | none =>
    rw [ha] at hname
    simpa using hname
  | some a =>
    rw [ha] at hname
    obtain ⟨a', ha', hname⟩ := Option.map_eq_some_iff.mp hname
    rw [Option.map_some]
    split
    case isTrue hseen => exact h.getElem?_of_seen hkey ha hseen
    case isFalse hfirst =>
      -- The first of a name is what look-ups find, before the run and after it.
      have hfound := h.find?_map hkey (key a)
      rw [find?_of_first ha hfirst, ← hname, find?_of_first ha' (by rwa [hnames, hname])] at hfound
      rw [ha', hfound, hname]
      rfl

end Overwritten

end Overwrite

/-! ### Entries in their order -/

namespace ByName

variable {β : Type} {m : ByName β} {name : String} {b : β}

/-- The entries of a map whose names are lower than a name. -/
def below (m : ByName β) (name : String) : ByName β := m.filter fun n _ => (compare n name).isLT

/-- The entries below a name are those that come before it in the order of writing. -/
theorem toList_below : (m.below name).toList = m.toList.filter fun e => (compare e.1 name).isLT :=
  ExtTreeMap.toList_filter

/-- The entries below one of a map are those before it. Names are listed in ascending order, so that
"below" and "before" are the same. -/
theorem toList_below_of_toList_eq {before rest : List (String × β)}
    (h : m.toList = before ++ (name, b) :: rest) : (m.below name).toList = before := by
  have hordered := ExtTreeMap.ordered_keys_toList (t := m)
  rw [h, List.pairwise_append, List.pairwise_cons] at hordered
  obtain ⟨-, ⟨hhigher, -⟩, hlower⟩ := hordered
  have hbefore : before.filter (fun e => (compare e.1 name).isLT) = before :=
    List.filter_eq_self.mpr fun e he =>
      Ordering.isLT_iff_eq_lt.mpr (hlower e he (name, b) List.mem_cons_self)
  have hrest : ((name, b) :: rest).filter (fun e => (compare e.1 name).isLT) = [] := by
    refine List.filter_eq_nil_iff.mpr (List.forall_mem_cons.mpr ⟨?_, fun e he => ?_⟩)
    · have hself : compare name name = .eq := ReflCmp.compare_self
      rw [hself]
      exact Bool.false_ne_true
    · rw [OrientedCmp.gt_of_lt (hhigher e he)]
      exact Bool.false_ne_true
  rw [toList_below, h, List.filter_append, hbefore, hrest, List.append_nil]

/-- Of the names of a map that a property leaves out, there is a first. This is where a plan stops
that names something unknown. -/
theorem exists_first {P : String → Prop} (h : ∃ n ∈ m, ¬ P n) :
    ∃ n ∈ m, ¬ P n ∧ ∀ n' ∈ m.below n, P n' := by
  classical
  obtain ⟨n, hn, hP⟩ := h
  obtain ⟨e, he, rfl⟩ := List.mem_map.mp (mem_names.mpr hn)
  have hsome : (m.toList.find? fun e => ¬ P e.1).isSome :=
    List.find?_isSome.mpr ⟨e, he, decide_eq_true hP⟩
  obtain ⟨⟨name, b⟩, hfound⟩ := Option.isSome_iff_exists.mp hsome
  obtain ⟨hP, before, rest, hsplit, hbefore⟩ := List.find?_eq_some_iff_append.mp hfound
  have hmem : name ∈ m.toList.map Prod.fst := by simp [hsplit]
  refine ⟨name, mem_names.mp hmem, of_decide_eq_true hP, fun n hn => ?_⟩
  rw [← mem_names, toList_below_of_toList_eq hsplit] at hn
  obtain ⟨e, he, rfl⟩ := List.mem_map.mp hn
  simpa using hbefore e he

/-- The entries of a map are those below a name that it has, the one of the name, and others. -/
theorem exists_toList_eq (hname : name ∈ m) :
    ∃ b rest, m.toList = (m.below name).toList ++ (name, b) :: rest := by
  obtain ⟨⟨_, b⟩, he, rfl⟩ := List.mem_map.mp (mem_names.mpr hname)
  obtain ⟨before, rest, hsplit⟩ := List.append_of_mem he
  exact ⟨b, rest, by rw [toList_below_of_toList_eq hsplit, hsplit]⟩

end ByName

namespace Plan

variable {R : Type} {plan part : Plan R} {c c' : Catalog} {e : DesignError}

/-- A catalog with all entries of a plan in it. -/
def written (plan : Plan R) (c : Catalog) : Catalog :=
  { c with
    tables := overwrite Table.name Partitioning.write plan.tables c.tables
    procedures := overwrite Procedure.name ProcedurePlan.write plan.procedures c.procedures }

/-- A catalog has whatever a plan names. -/
structure Covered (plan : Plan R) (c : Catalog) : Prop where
  tables : ∀ name ∈ plan.tables, name ∈ c.tables.map Table.name
  procedures : ∀ name ∈ plan.procedures, name ∈ c.procedures.map Procedure.name

/-- What look-ups find in a catalog is as a plan says. A name that occurs more than once is looked
up at its first occurrence, and only there a plan is carried out. -/
structure Carried (plan : Plan R) (c : Catalog) : Prop where
  tables : ∀ name m, plan.tables[name]? = some m →
    ∃ t, c.table? name = some t ∧ t.partitioning = some m
  procedures : ∀ name (e : ProcedurePlan), plan.procedures[name]? = some e →
    ∃ p, c.procedureNamed name = .ok p ∧ p.singlePartition = e.singlePartition
      ∧ (e.routingParam.isSome → p.routingParam = e.routingParam)

/-- The entries of a plan that come before that of a table. -/
def beforeTable (plan : Plan R) (name : String) : Plan R :=
  { plan with tables := plan.tables.below name, procedures := ∅ }

/-- The entries of a plan that come before that of a procedure. -/
def beforeProcedure (plan : Plan R) (name : String) : Plan R :=
  { plan with procedures := plan.procedures.below name }

/-- A plan names something that a catalog lacks, and does not so in the part before it. Tables come
before procedures, and names in ascending order; so the part before is determined. -/
inductive StopsAt (plan : Plan R) (c : Catalog) : DesignError → Plan R → Prop
  | table {name : String} (hnamed : name ∈ plan.tables) (hlacks : name ∉ c.tables.map Table.name)
      (hbefore : (plan.beforeTable name).Covered c) :
      StopsAt plan c (.plannedTable name) (plan.beforeTable name)
  | procedure {name : String} (hnamed : name ∈ plan.procedures)
      (hlacks : name ∉ c.procedures.map Procedure.name)
      (hbefore : (plan.beforeProcedure name).Covered c) :
      StopsAt plan c (.plannedProcedure name) (plan.beforeProcedure name)

/-- What is left by writing all entries, said of the lists of tables and procedures. -/
theorem written_eq {tables : List Table} {procedures : List Procedure}
    (ht : Overwritten Table.name Partitioning.write plan.tables.toList c.tables tables)
    (hp : Overwritten Procedure.name ProcedurePlan.write plan.procedures.toList c.procedures
      procedures) :
    plan.written c = { c with tables := tables, procedures := procedures } := by
  rw [written, ← ht.eq_overwrite Partitioning.name_write,
    ← hp.eq_overwrite ProcedurePlan.name_write]

/-- A plan that names nothing that a catalog lacks is written as a whole. -/
theorem apply_of_covered (h : plan.Covered c) : plan.apply c = (plan.written c, .ok ()) := by
  obtain ⟨tables, procedures, ht, hp⟩ := exists_overwritten h.tables h.procedures
  rw [written_eq ht hp, apply_of_overwritten ht hp]

/-- A plan that is written as a whole shows in every look-up. A table has the method that is planned
for it, and a procedure its flag and, where one is planned, its routing parameter. -/
theorem carried_of_covered (h : plan.Covered c) : plan.Carried (plan.written c) := by
  obtain ⟨c', hone, hc'⟩ := apply_of_named h.tables h.procedures
  obtain rfl : plan.written c = c' := congrArg Prod.fst ((apply_of_covered h).symm.trans hone)
  constructor
  · intro name m hm
    obtain ⟨t, ht⟩ := exists_find?_of_mem_map
      (h.tables name (ExtTreeMap.mem_iff_isSome_getElem?.mpr (Option.isSome_of_eq_some hm)))
    exact ⟨m.write t, by rw [hc'.table?, Catalog.table?, ht, hm]; rfl, rfl⟩
  · intro name e he
    obtain ⟨p, hp⟩ := exists_find?_of_mem_map
      (h.procedures name (ExtTreeMap.mem_iff_isSome_getElem?.mpr (Option.isSome_of_eq_some he)))
    have hfound : (plan.written c).procedureNamed name = .ok (e.write p) := by
      rw [Catalog.procedureNamed, hc'.procedure?, hp, he]
      rfl
    refine ⟨e.write p, hfound, rfl, fun hsome => ?_⟩
    obtain ⟨k, hk⟩ := Option.isSome_iff_exists.mp hsome
    rw [ProcedurePlan.write, hk, Option.some_or]

/-- A table that a catalog lacks ends a plan. -/
theorem writeTables_of_lacking {name : String} (hlacks : name ∉ c.tables.map Table.name)
    (m : Partitioning) (rest : List (String × Partitioning)) :
    writeTables c ((name, m) :: rest) = (c, .error (.plannedTable name)) := by
  rw [writeTables, Catalog.updateTable?, findIdx?_of_not_mem_map hlacks]
  rfl

/-- A procedure that a catalog lacks ends a plan. -/
theorem writeProcedures_of_lacking {name : String}
    (hlacks : name ∉ c.procedures.map Procedure.name) (e : ProcedurePlan)
    (rest : List (String × ProcedurePlan)) :
    writeProcedures c ((name, e) :: rest) = (c, .error (.plannedProcedure name)) := by
  rw [writeProcedures, Catalog.updateProcedure?, findIdx?_of_not_mem_map hlacks]
  rfl

/-- What comes before the name that ends a plan is written, and nothing else. If the name is one of
a table then no procedure has been written yet; if it is one of a procedure then all tables have. -/
theorem StopsAt.apply_eq (h : plan.StopsAt c e part) :
    plan.apply c = (part.written c, .error e) := by
  cases h with
  | @table name hnamed hlacks hbefore =>
    obtain ⟨m, rest, hsplit⟩ : ∃ m rest,
        plan.tables.toList = (plan.beforeTable name).tables.toList ++ (name, m) :: rest :=
      ByName.exists_toList_eq hnamed
    obtain ⟨tables, -, ht, -⟩ := exists_overwritten hbefore.tables hbefore.procedures
    -- No procedure comes before a table.
    have hp : Overwritten Procedure.name ProcedurePlan.write
        (plan.beforeTable name).procedures.toList c.procedures c.procedures := .nil _
    have hnames := ht.map_of_kept Partitioning.name_write
    rw [apply, hsplit, writeTables_append ht, writeTables_of_lacking (by rwa [hnames]),
      written_eq ht hp]
  | @procedure name hnamed hlacks hbefore =>
    obtain ⟨e, rest, hsplit⟩ : ∃ e rest,
        plan.procedures.toList = (plan.beforeProcedure name).procedures.toList ++ (name, e) :: rest :=
      ByName.exists_toList_eq hnamed
    obtain ⟨tables, procedures, ht, hp⟩ := exists_overwritten hbefore.tables hbefore.procedures
    have hnames := hp.map_of_kept ProcedurePlan.name_write
    have hall : writeTables c plan.tables.toList = ({ c with tables := tables }, .ok ()) :=
      writeTables_of_overwritten ht
    rw [apply, hall]
    dsimp only
    rw [hsplit, writeProcedures_append (c := { c with tables := tables }) hp,
      writeProcedures_of_lacking (by rwa [hnames]), written_eq ht hp]

/-- A plan that names something that a catalog lacks ends at the first of it. -/
theorem exists_stopsAt (h : ¬ plan.Covered c) : ∃ e part, plan.StopsAt c e part := by
  by_cases ht : ∀ name ∈ plan.tables, name ∈ c.tables.map Table.name
  case neg =>
    obtain ⟨name, hnamed, hlacks, hbefore⟩ :=
      ByName.exists_first (P := (· ∈ c.tables.map Table.name)) (by simpa using ht)
    exact ⟨_, _, .table hnamed hlacks ⟨hbefore, by simp [beforeTable]⟩⟩
  case pos =>
    have hp : ¬ ∀ name ∈ plan.procedures, name ∈ c.procedures.map Procedure.name :=
      fun hp => h ⟨ht, hp⟩
    obtain ⟨name, hnamed, hlacks, hbefore⟩ :=
      ByName.exists_first (P := (· ∈ c.procedures.map Procedure.name)) (by simpa using hp)
    exact ⟨_, _, .procedure hnamed hlacks ⟨ht, hbefore⟩⟩

/-- A plan is applied without an error iff a catalog has all that the plan names. Then look-ups find
the plan's method in every table it names, and its flag and any parameter it chooses in every
procedure. Otherwise the plan ends at the first name that the catalog lacks, tables before
procedures and both by ascending name, and the catalog has what comes before this name in it. In
both cases nothing else of the catalog changes. -/
theorem apply_written (plan : Plan R) (c : Catalog) :
    ((∃ c', plan.apply c = (c', .ok ())) ↔ plan.Covered c)
      ∧ (plan.Covered c →
          plan.apply c = (plan.written c, .ok ()) ∧ plan.Carried (plan.written c))
      ∧ (¬ plan.Covered c →
          ∃ e part, plan.StopsAt c e part ∧ plan.apply c = (part.written c, .error e)) := by
  refine ⟨⟨?_, fun h => ⟨_, apply_of_covered h⟩⟩,
    fun h => ⟨apply_of_covered h, carried_of_covered h⟩, fun h => ?_⟩
  · rintro ⟨c', hok⟩
    by_contra h
    obtain ⟨e, part, hstops⟩ := exists_stopsAt h
    rw [hstops.apply_eq] at hok
    cases hok
  · obtain ⟨e, part, hstops⟩ := exists_stopsAt h
    exact ⟨e, part, hstops, hstops.apply_eq⟩

/-- Deposits, flagged and routed as given. -/
def deposit (single : Bool) (routing : Option Nat) : Procedure :=
  ⟨0, "deposit", [⟨"account", false⟩], [], false, single, routing⟩

/-- A counter whose accounts are spread as given, and whose deposits are as given. -/
def counter (accounts : Option Partitioning) (p : Procedure) : Catalog :=
  ⟨2, [⟨"ACCOUNTS", ["ID"], ["ID"], accounts⟩], [p]⟩

/-- Accounts are hashed by their number, and deposits stay within a partition. -/
def deposits : Plan Nat :=
  ⟨(∅ : ByName Partitioning).insert "ACCOUNTS" (.hash "ID"),
    (∅ : ByName ProcedurePlan).insert "deposit" ⟨none, true⟩, 0⟩

/-- There are withdrawals as well. -/
def payments : Plan Nat :=
  { deposits with procedures := deposits.procedures.insert "withdraw" ⟨some 0, true⟩ }

/-- A counter takes a plan for deposits, and a plan for payments up to the withdrawals. -/
theorem apply_written_counter :
    deposits.Covered (counter none (deposit false (some 0)))
      ∧ deposits.apply (counter none (deposit false (some 0))) =
        (counter (some (.hash "ID")) (deposit true (some 0)), .ok ())
      ∧ ¬ payments.Covered (counter none (deposit false (some 0)))
      ∧ ∃ part, payments.StopsAt (counter none (deposit false (some 0)))
          (.plannedProcedure "withdraw") part
        ∧ part.written (counter none (deposit false (some 0))) =
          counter (some (.hash "ID")) (deposit true (some 0)) := by
  have hwhole := apply_written deposits (counter none (deposit false (some 0)))
  have hhalf := apply_written payments (counter none (deposit false (some 0)))
  have hcovered : deposits.Covered (counter none (deposit false (some 0))) :=
    hwhole.1.mp ⟨counter (some (.hash "ID")) (deposit true (some 0)), by decide +kernel⟩
  have hrun : payments.apply (counter none (deposit false (some 0))) =
      (counter (some (.hash "ID")) (deposit true (some 0)),
        .error (.plannedProcedure "withdraw")) := by
    decide +kernel
  -- The run that was evaluated has not come to its end.
  have hlacks : ¬ payments.Covered (counter none (deposit false (some 0))) := by
    rw [← hhalf.1, hrun]
    rintro ⟨_, h⟩
    cases h
  obtain ⟨e, part, hstops, hpart⟩ := hhalf.2.2 hlacks
  rw [hrun] at hpart
  obtain ⟨hwritten, he⟩ := Prod.mk.inj hpart
  cases he
  refine ⟨hcovered, (hwhole.2.1 hcovered).1.trans ?_, hlacks, part, hstops, hwritten.symm⟩
  decide +kernel

/-- Payments end at the withdrawals, and leave another catalog than they found. -/
theorem apply_halfway :
    (payments.apply (counter none (deposit false (some 0)))).2 = .error (.plannedProcedure "withdraw")
      ∧ (payments.apply (counter none (deposit false (some 0)))).1 ≠
        counter none (deposit false (some 0)) := by
  decide +kernel

end Plan

end TxnPath
