import TxnPath.Proofs.Design.Generate
import TxnPath.Proofs.Outcome
import TxnPath.Proofs.Router.Within

/-!
# `TxnPath.Proofs.Design.SinglePartition`: procedures that stay within one partition

A plan flags procedures by what their statements bind, long before there are any values. A router
looks at values, and at the catalog that the plan was written into. `Catalog.Confined` is what the
two have in common: every table of every statement is either only read and not hashed, or its
partitioning column is bound to some parameter. `Planner.confined_of_generate` reads this off
the flag, `Catalog.Confined.route` derives from it that a statement touches the base partition and
no other, and `Planner.singlePartition_sound` puts the two together.
-/

set_option autoImplicit false

namespace TxnPath

open Std (ExtTreeMap)

/-- The value that a call is routed by. -/
def Procedure.routingValue? (p : Procedure) (args : List Value) : Option Value :=
  p.routingParam.bind fun i => args[i]?

namespace Catalog

/-- The column that a table is hashed by, if there is such a table and it is hashed. -/
def hashColumn? (c : Catalog) (table : String) : Option String :=
  (c.table? table).bind Table.partitionColumn?

/-- A full list of parameters for a statement of a call, in which every parameter that is bound to
the partitioning column of one of the statement's hashed tables carries the value that the call is
routed by. -/
structure CarriesRouting (c : Catalog) (p : Procedure) (args : List Value) (s : Statement)
    (params : List Value) : Prop where
  full : params.length = s.params.length
  carried : ∀ (i : Nat) (column : ColumnRef), s.params[i]? = some (some column) → column.table ∈ s.tables →
    c.hashColumn? column.table = some column.column →
    ∃ v, p.routingValue? args = some v ∧ params[i]? = some v

/-- The tables of a statement are there. Those that are hashed are bound to some parameter, and the
procedure is routed by one of its own; the others are only read. -/
structure Confined (c : Catalog) (p : Procedure) (s : Statement) : Prop where
  known : ∀ table ∈ s.tables, (c.table? table).isSome
  onlyRead : ∀ table ∈ s.tables, c.hashColumn? table = none → s.isReadOnly = true
  bound : ∀ table ∈ s.tables, ∀ column, c.hashColumn? table = some column →
    p.routingParam.isSome ∧ ∃ i : Nat, s.params[i]? = some (some ⟨table, column⟩)

/-! ### Routing a statement that is confined -/

section Route

variable {c : Catalog} {p : Procedure} {s : Statement} {args params : List Value} {b : Nat}

/-- A call that has a routing value belongs to the home of this value. -/
theorem home?_of_basePartition {v : Value} (hbase : c.basePartition p args = .ok b)
    (hv : p.routingValue? args = some v) : v.home? c.partitions = some b := by
  obtain ⟨i, hi, hv⟩ := Option.bind_eq_some_iff.mp hv
  rw [basePartition, hi] at hbase
  dsimp only at hbase
  rw [hv] at hbase
  dsimp only at hbase
  split at hbase
  · cases hbase
  case h_2 hhome => rw [hhome, Except.ok.inj hbase]

/-- A value that has a home is a scalar, so that its home is all it touches. -/
theorem homes_of_home? {n : Nat} {v : Value} (h : v.home? n = some b) : v.homes n = [b] := by
  cases v with
  | null => cases h
  | list items => cases h
  | int i | real bits | str text =>
    rw [Value.homes, h, Option.toList_some]
    intro _ hlist
    cases hlist

/-- If all that is bound to a column touches the same partition, and something is bound to it, then
this is the partition that the column selects. -/
theorem boundHomes?_eq {n : Nat} {column : ColumnRef}
    (hall : ∀ bound v, (bound, v) ∈ s.params.zip params → bound = some column → v.homes n = [b])
    (hsome : ∃ v, (some column, v) ∈ s.params.zip params) :
    boundHomes? n column s params = some [b] := by
  rw [boundHomes?]
  generalize s.params.zip params = pairs at hall hsome
  induction pairs with
  | nil => exact absurd hsome.choose_spec List.not_mem_nil
  | cons pair pairs ih =>
    obtain ⟨bound, v⟩ := pair
    rw [List.findSome?_cons]
    -- The first value that is bound to the column decides.
    by_cases hbound : bound = some column
    · simp [hbound, hall bound v List.mem_cons_self hbound]
    · simp only [hbound, if_false]
      refine ih (fun bound v hmem => hall bound v (List.mem_cons_of_mem _ hmem)) ?_
      obtain ⟨v', hv'⟩ := hsome
      refine ⟨v', (List.mem_cons.mp hv').resolve_left fun heq => hbound ?_⟩
      exact (congrArg Prod.fst heq).symm

/-- All that is bound to the partitioning column of a hashed table has the home of the call. -/
theorem CarriesRouting.homes (h : c.CarriesRouting p args s params)
    (hbase : c.basePartition p args = .ok b) {column : ColumnRef} (htable : column.table ∈ s.tables)
    (hcolumn : c.hashColumn? column.table = some column.column) {bound : Option ColumnRef}
    {v : Value} (hmem : (bound, v) ∈ s.params.zip params) (hbound : bound = some column) :
    v.homes c.partitions = [b] := by
  obtain ⟨i, hi⟩ := List.mem_iff_getElem?.mp hmem
  obtain ⟨hslot, hvalue⟩ := List.getElem?_zip_eq_some.mp hi
  obtain ⟨w, hw, hcarried⟩ := h.carried i column (hbound ▸ hslot) htable hcolumn
  obtain rfl : v = w := Option.some.inj (hvalue.symm.trans hcarried)
  exact homes_of_home? (home?_of_basePartition hbase hw)

/-- Each table of a confined statement touches the base partition and no other. A table that is
spread by a column has the routing parameter bound to this column; any other table is only read, and
this is done at the base partition. -/
theorem Confined.tablePartitions (h : c.Confined p s) (hbase : c.basePartition p args = .ok b)
    (hparams : c.CarriesRouting p args s params) {table : String} (htable : table ∈ s.tables) :
    c.tablePartitions s params b table = .ok (.singleton b) := by
  obtain ⟨t, ht⟩ := Option.isSome_iff_exists.mp (h.known table htable)
  have hcolumn : c.hashColumn? table = t.partitionColumn? := by rw [hashColumn?, ht]; rfl
  rw [Catalog.tablePartitions, ht]
  dsimp only
  split
  case h_1 column hmethod =>
    -- The table is spread by a column, to which the routing parameter is bound.
    rw [Table.partitionColumn?, hmethod] at hcolumn
    obtain ⟨_, i, hi⟩ := h.bound table htable column hcolumn
    obtain ⟨v, _, hv⟩ := hparams.carried i ⟨table, column⟩ hi htable hcolumn
    have hmem : (some ⟨table, column⟩, v) ∈ s.params.zip params :=
      List.mem_iff_getElem?.mpr ⟨i, List.getElem?_zip_eq_some.mpr ⟨hi, hv⟩⟩
    rw [boundHomes?_eq (fun _ _ => hparams.homes hbase htable hcolumn) ⟨v, hmem⟩]
    rfl
  case h_2 hmethod | h_3 hmethod =>
    rw [Table.partitionColumn?, hmethod] at hcolumn
    rw [if_pos (h.onlyRead table htable hcolumn)]

/-- Tables that each touch one partition touch no other together. The set so far, which is general,
has none but this one. -/
theorem foldlM_tablePartitions_eq {names : List String} {set : PartitionSet}
    (hset : ∀ q ∈ set, q = b)
    (hall : ∀ table ∈ names, c.tablePartitions s params b table = .ok (.singleton b)) :
    ∃ touched, names.foldlM (fun set name => do
      pure (set.union (← c.tablePartitions s params b name))) set = .ok touched ∧
        ∀ q ∈ touched, q = b := by
  induction names generalizing set with
  | nil => exact ⟨set, rfl, hset⟩
  | cons name names ih =>
    obtain ⟨hfirst, hrest⟩ := List.forall_mem_cons.mp hall
    have hunion : ∀ q ∈ set.union (.singleton b), q = b := fun q hq =>
      (PartitionSet.mem_union.mp hq).elim (hset q) PartitionSet.mem_singleton.mp
    obtain ⟨touched, hrun, htouched⟩ := ih hunion hrest
    refine ⟨touched, ?_, htouched⟩
    rw [List.foldlM_cons, hfirst]
    exact hrun

/-- A set that is not empty and has no other member than one is the set of this one. -/
theorem eq_singleton {set : PartitionSet} (h : ∀ q ∈ set, q = b) (hne : set.isEmpty = false) :
    set = .singleton b := by
  have hb : b ∈ set := by
    obtain ⟨q, hq⟩ := List.exists_mem_of_ne_nil set.toList (List.isEmpty_eq_false_iff.mp hne)
    exact h q hq ▸ hq
  refine PartitionSet.ext_mem fun q => ⟨fun hq => PartitionSet.mem_singleton.mpr (h q hq), ?_⟩
  rw [PartitionSet.mem_singleton]
  exact fun hq => hq ▸ hb

/-- A confined statement touches the base partition and no other. -/
theorem Confined.route (h : c.Confined p s) (hbase : c.basePartition p args = .ok b)
    (hparams : c.CarriesRouting p args s params) :
    c.statementPartitions s params b = .ok (.singleton b) := by
  have hnone : ∀ q ∈ (∅ : PartitionSet), q = b := fun q hq =>
    absurd hq (PartitionSet.not_mem_empty q)
  obtain ⟨touched, hrun, htouched⟩ := foldlM_tablePartitions_eq hnone
    fun table htable => h.tablePartitions hbase hparams htable
  rw [statementPartitions, hrun]
  show Except.ok _ = _
  split
  · rfl
  case isFalse hne => rw [eq_singleton htouched (Bool.eq_false_iff.mpr hne)]

end Route

end Catalog

/-! ### The flag of a plan -/

namespace Planner

variable {R : Type} [Scalar R] {d : Planner R} {plan : Plan R} {c' : Catalog}

/-- Once a plan is written, a table of the catalog is hashed as the plan says. -/
theorem hashColumn?_of_written (hnamed : d.Named plan) (hwritten : plan.Written d.catalog c')
    {table : String} (htable : (d.catalog.table? table).isSome) :
    (c'.table? table).isSome ∧ c'.hashColumn? table = plan.column? table := by
  obtain ⟨t, ht⟩ := Option.isSome_iff_exists.mp htable
  have hname : t.name = table :=
    of_decide_eq_true (List.find?_some (p := fun t : Table => t.name = table) ht)
  have hmem : table ∈ plan.tables :=
    (hnamed.tables table).mpr (hname ▸ List.mem_map_of_mem (List.mem_of_find?_eq_some ht))
  obtain ⟨m, hm⟩ := Option.isSome_iff_exists.mp (ExtTreeMap.mem_iff_isSome_getElem?.mp hmem)
  have ht' : c'.table? table = some (m.write t) := by rw [hwritten.table?, ht, hm]; rfl
  refine ⟨by rw [ht']; rfl, ?_⟩
  rw [Catalog.hashColumn?, ht', Plan.column?, hm]
  cases m <;> rfl

/-- A procedure that the system does not own and that is flagged has confined statements only. The
flag was set for the columns of the plan, and it is by these columns that the tables of the catalog
are spread after the plan was applied. -/
theorem confined_of_generate (hvalid : d.catalog.validate = .ok ())
    (hnames : (d.catalog.procedures.map Procedure.name).Nodup) (hnamed : d.Named plan)
    (hwritten : plan.Written d.catalog c') {p' : Procedure} (hp' : p' ∈ c'.procedures)
    (hsystem : p'.isSystem = false) (hsingle : p'.singlePartition = true) {s : Statement}
    (hs : s ∈ p'.statements) : c'.Confined p' s := by
  obtain ⟨p, hp, hname, heq⟩ := hwritten.procedure_of_mem hnames hp'
  rw [← hname, hnamed.procedure_of_mem hnames hp, Option.elim_some] at heq
  subst heq
  -- What was written into the procedure is its flag, and the parameter that the flag was set for.
  have hentry : p.isSystem = false := hsystem
  rw [ProcedurePlan.write, planProcedure, hentry] at hsingle ⊢
  have htable : ∀ table ∈ s.tables, (c'.table? table).isSome ∧
      c'.hashColumn? table = plan.column? table := fun table ht =>
    hashColumn?_of_written hnamed hwritten (Catalog.isSome_table? hvalid hp hs ht)
  have hflag : ∀ table ∈ s.tables, _ := fun table ht =>
    List.all_eq_true.mp (List.all_eq_true.mp hsingle s hs) table ht
  refine ⟨fun table ht => (htable table ht).1, fun table ht hnone => ?_,
    fun table ht column hcolumn => ?_⟩
  · have h := hflag table ht
    rw [(htable table ht).2] at hnone
    rw [show Plan.column? { plan with procedures := ∅ } table = none from hnone] at h
    exact h
  · have h := hflag table ht
    rw [(htable table ht).2] at hcolumn
    rw [show Plan.column? { plan with procedures := ∅ } table = some column from hcolumn] at h
    obtain ⟨routing, hrouting, hbinds⟩ := (Option.any_eq_true _ _).mp h
    refine ⟨?_, ?_⟩
    · dsimp only
      rw [hrouting]
      rfl
    · obtain ⟨⟨bound, i⟩, hmem, hbound⟩ := List.any_eq_true.mp hbinds
      obtain ⟨hbound, _⟩ := (Bool.and_eq_true _ _).mp hbound
      refine ⟨i, ?_⟩
      rw [← eq_of_beq hbound]
      exact List.mem_zipIdx_iff_getElem?.mp hmem

/-- A flag for a single partition holds what it promises. A plan that is made for a valid catalog
whose procedures have names of their own can be written into it, and the router of what this leaves
knows the flag to be right: wherever a call of a flagged procedure belongs, every statement with
parameters that carry the routing value touches this partition and no other. -/
theorem singlePartition_sound (hvalid : d.catalog.validate = .ok ())
    (hnames : (d.catalog.procedures.map Procedure.name).Nodup)
    (hplan : d.generate = .ok (.ok plan)) :
    ∃ c' r, plan.apply d.catalog = (c', .ok ()) ∧ c'.router = .ok r ∧
      ∀ p ∈ c'.procedures, p.isSystem = false → p.singlePartition = true →
        ∀ args b, r.base p args = .ok b →
          ∀ s ∈ p.statements, ∀ params, c'.CarriesRouting p args s params →
            r.route p s params b = .ok (.singleton b) := by
  obtain ⟨c', happly, hwritten⟩ := generate_apply hplan
  have hpartitions : c'.partitions ≠ 0 :=
    hwritten.partitions ▸ Nat.ne_of_gt (Catalog.partitions_pos hvalid)
  refine ⟨c', _, happly, if_neg hpartitions, ?_⟩
  intro p hp hsystem hsingle args b hbase s hs params hparams
  have hconfined := confined_of_generate hvalid hnames (generate_named hplan) hwritten hp hsystem
    hsingle hs
  exact hconfined.route hbase hparams

/-- A withdrawal looks up a rate and changes an account. It is flagged and routed as given. -/
def withdrawal (single : Bool) (routing : Option Nat) : Procedure :=
  ⟨0, "withdraw", [⟨"account", false⟩, ⟨"amount", false⟩],
    [⟨0, "rate", .select, ["RATES"], []⟩,
      ⟨1, "change", .update, ["ACCOUNTS"], [none, some ⟨"ACCOUNTS", "ID"⟩]⟩], false, single, routing⟩

/-- A bank with four partitions whose accounts and rates are spread as given. -/
def bank (accounts rates : Option Partitioning) (p : Procedure) : Catalog :=
  ⟨4, [⟨"ACCOUNTS", ["ID", "BALANCE"], ["ID"], accounts⟩, ⟨"RATES", ["RATE"], [], rates⟩], [p]⟩

/-- Withdrawals were seen to change the account that is their first argument. -/
def bankPlanner : Planner Rat :=
  let c := bank none none (withdrawal false none)
  ⟨c, .ofSizes c fun _ => none, .ofList [⟨0, 1, 0, 1, 0, none, 1⟩],
    { Hints.empty with searchParameters := true }⟩

/-- Withdrawals are flagged. One from account 6 belongs to partition 2, and that is where it changes
the account. -/
theorem singlePartition_sound_bank :
    ∃ plan r, bankPlanner.generate = .ok (.ok plan)
      ∧ plan.apply bankPlanner.catalog =
        (bank (some (.hash "ID")) (some .replicated) (withdrawal true (some 0)), .ok ())
      ∧ (bank (some (.hash "ID")) (some .replicated) (withdrawal true (some 0))).router = .ok r
      ∧ r.base (withdrawal true (some 0)) [.int 6, .int 50] = .ok 2
      ∧ r.route (withdrawal true (some 0))
          ⟨1, "change", .update, ["ACCOUNTS"], [none, some ⟨"ACCOUNTS", "ID"⟩]⟩
          [.int (-50), .int 6] 2 = .ok (.singleton 2) := by
  obtain ⟨plan, hplan⟩ : ∃ plan, bankPlanner.generate = .ok (.ok plan) := by
    have hsome : (bankPlanner.generate.toOption.bind Except.toOption).isSome = true := by
      decide +kernel
    obtain ⟨plan, h⟩ := Option.isSome_iff_exists.mp hsome
    obtain ⟨x, hx, h⟩ := Option.bind_eq_some_iff.mp h
    exact ⟨plan, by rw [Outcome.of_toOption hx, Outcome.of_toOption h]⟩
  obtain ⟨c', r, happly, hrouter, hsound⟩ :=
    singlePartition_sound (d := bankPlanner) (by decide +kernel) (by decide +kernel) hplan
  -- The catalog evaluated is the one that the plan leaves.
  have hc' : (plan.apply bankPlanner.catalog).1 =
      bank (some (.hash "ID")) (some .replicated) (withdrawal true (some 0)) := by
    have hrun : bankPlanner.generate.toOption.map (fun x => x.toOption.map fun plan : Plan Rat =>
        (plan.apply bankPlanner.catalog).1) =
      some (some (bank (some (.hash "ID")) (some .replicated) (withdrawal true (some 0)))) := by
      decide +kernel
    rw [hplan] at hrun
    exact Option.some.inj (Option.some.inj hrun)
  rw [happly] at hc'
  subst hc'
  cases hrouter
  refine ⟨plan, _, hplan, happly, rfl, rfl, ?_⟩
  refine hsound _ List.mem_cons_self rfl rfl [.int 6, .int 50] 2 rfl _
    (List.mem_cons_of_mem _ List.mem_cons_self) _ ⟨rfl, fun i column hi _ _ => ?_⟩
  match i, hi with
  | 1, _ => exact ⟨.int 6, rfl, rfl⟩

end Planner

end TxnPath
