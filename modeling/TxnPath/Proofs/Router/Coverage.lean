import TxnPath.Proofs.Outcome
import TxnPath.Proofs.Router.Within

/-!
# `TxnPath.Proofs.Router.Coverage`: what a statement is routed by

A statement goes to the partitions that its tables send it to, each on its own. A table that is not
hashed sends it to the base partition, or everywhere if it writes. A hashed table sends it to the homes
of the scalars in one parameter: the first that is bound to the partitioning column and holds any
(`Catalog.Decides`), however deep in lists within lists they are (`Value.mem_homes_iff`). If there is no
such parameter it goes everywhere.

Parameters that are bound to the same column after this one are not looked at.
`statementPartitions_covered` says which bound values can be relied on to be covered, and that nothing
else is.
-/

set_option autoImplicit false

namespace TxnPath

variable {n : Nat}

/-! ### Scalars in a value -/

namespace Value

/-- Whether the value is neither missing nor a list. -/
def isScalar : Value → Bool
  | .null | .list _ => false
  | .int _ | .real _ | .str _ => true

/-- Scalars are what has a home. -/
theorem isSome_home? (n : Nat) (v : Value) : (v.home? n).isSome = v.isScalar := by
  cases v <;> rfl

/-- Every scalar has a home. -/
theorem exists_home? (n : Nat) (v : Value) (h : v.isScalar = true) : ∃ q, v.home? n = some q :=
  Option.isSome_iff_exists.mp ((isSome_home? n v).trans h)

/-- A value contains itself, and a list what its elements contain. -/
inductive Contains : Value → Value → Prop
  | self (v : Value) : Contains v v
  | item {items : List Value} {v w : Value} : v ∈ items → Contains v w → Contains (.list items) w

/-- A scalar is in the value, at any depth. -/
def HasScalar (v : Value) : Prop := ∃ w, v.Contains w ∧ w.isScalar = true

mutual

/-- The homes in a value are those of the scalars in it. A list has the homes of its items, however
deep they are, and a scalar has its own one. -/
theorem mem_homes_iff {q : Nat} : ∀ v : Value,
    q ∈ v.homes n ↔ ∃ w, v.Contains w ∧ w.home? n = some q
  | .list items => by
    rw [homes, mem_homesOfItems_iff items]
    constructor
    · rintro ⟨v, hv, w, hw, hq⟩
      exact ⟨w, .item hv hw, hq⟩
    · rintro ⟨w, hw, hq⟩
      cases hw with
      | self => cases hq
      | item hv hw => exact ⟨_, hv, w, hw, hq⟩
  | .null | .int _ | .real _ | .str _ => by
    rw [homes, Option.mem_toList]
    · refine ⟨fun hq => ⟨_, .self _, hq⟩, ?_⟩
      rintro ⟨w, hw, hq⟩
      cases hw
      exact hq
    · nofun

/-- The homes of a list of values are those of all scalars in them, however deep. -/
theorem mem_homesOfItems_iff {q : Nat} : ∀ items : List Value,
    q ∈ homesOfItems n items ↔ ∃ v ∈ items, ∃ w, v.Contains w ∧ w.home? n = some q
  | [] => by simp [homesOfItems]
  | v :: rest => by
    rw [homesOfItems, List.mem_append, mem_homes_iff v, mem_homesOfItems_iff rest]
    simp only [List.mem_cons, exists_eq_or_imp]

end

/-- A value has no home if there is no scalar in it. -/
theorem homes_eq_nil_iff (v : Value) : v.homes n = [] ↔ ¬ v.HasScalar := by
  rw [List.eq_nil_iff_forall_not_mem, HasScalar, not_exists]
  constructor
  · rintro hnone w ⟨hw, hscalar⟩
    obtain ⟨q, hq⟩ := w.exists_home? n hscalar
    exact hnone q ((mem_homes_iff v).mpr ⟨w, hw, hq⟩)
  · intro hnone q hq
    obtain ⟨w, hw, hq⟩ := (mem_homes_iff v).mp hq
    exact hnone w ⟨hw, by rw [← isSome_home? n, hq]; rfl⟩

end Value

/-! ### Parameters bound to a column -/

namespace Catalog

variable {c : Catalog} {s : Statement} {params : List Value} {base : Nat} {column : ColumnRef}
  {i j : Nat} {u v : Value}

/-- A parameter is bound to a column, and has a value. -/
def Binds (s : Statement) (params : List Value) (column : ColumnRef) (i : Nat) (v : Value) : Prop :=
  s.params[i]? = some (some column) ∧ params[i]? = some v

/-- A parameter is the first that is bound to a column and holds a scalar. Later ones do not count,
even if they are bound to the column as well. -/
structure Decides (s : Statement) (params : List Value) (column : ColumnRef) (i : Nat) (v : Value) :
    Prop where
  binds : Binds s params column i v
  scalar : v.HasScalar
  first : ∀ j u, j < i → Binds s params column j u → ¬ u.HasScalar

/-- There is only one such parameter. -/
theorem Decides.unique (h : Decides s params column i v) (h' : Decides s params column j u) :
    i = j ∧ v = u := by
  have hij : i = j := by
    rcases Nat.lt_trichotomy i j with hlt | heq | hlt
    · exact absurd h.scalar (h'.first i v hlt h.binds)
    · exact heq
    · exact absurd h'.scalar (h.first j u hlt h'.binds)
  subst hij
  exact ⟨rfl, Option.some.inj (h.binds.2.symm.trans h'.binds.2)⟩

/-- The homes in a parameter, if it is bound to the column and holds a scalar. -/
def slotHomes? (n : Nat) (column : ColumnRef) : Option ColumnRef × Value → Option (List Nat)
  | (bound, v) =>
    if bound = some column then
      match v.homes n with
      | [] => none
      | homes => some homes
    else none

/-- The parameters are looked at in turn, and the first that has homes decides. -/
theorem boundHomes?_eq_findSome? (n : Nat) (column : ColumnRef) (s : Statement) (params : List Value) :
    boundHomes? n column s params = (s.params.zip params).findSome? (slotHomes? n column) := rfl

/-- A parameter has homes if it is bound to the column and holds a scalar. -/
theorem slotHomes?_eq_some {bound : Option ColumnRef} {homes : List Nat} :
    slotHomes? n column (bound, v) = some homes
      ↔ bound = some column ∧ v.HasScalar ∧ homes = v.homes n := by
  have hnil := Value.homes_eq_nil_iff (n := n) v
  rw [slotHomes?]
  split
  case isTrue hbound =>
    split
    case h_1 hempty => simp [hnil.mp hempty]
    case h_2 hne => simp [hbound, Classical.not_not.mp (mt hnil.mpr hne), eq_comm]
  case isFalse hbound => simp [hbound]

/-- It has none if it is not bound, or holds no scalar. -/
theorem slotHomes?_eq_none {bound : Option ColumnRef} :
    slotHomes? n column (bound, v) = none ↔ (bound = some column → ¬ v.HasScalar) := by
  constructor
  · intro hnone hbound hscalar
    have hsome := (slotHomes?_eq_some (n := n)).mpr ⟨hbound, hscalar, rfl⟩
    rw [hnone] at hsome
    cases hsome
  · intro hslot
    cases hhomes : slotHomes? n column (bound, v) with
    | none => rfl
    | some homes =>
      obtain ⟨hbound, hscalar, _⟩ := slotHomes?_eq_some.mp hhomes
      exact absurd hscalar (hslot hbound)

/-- A parameter that is bound is one of the slots that are looked through. -/
theorem binds_iff : Binds s params column i v ↔ (s.params.zip params)[i]? = some (some column, v) := by
  rw [List.getElem?_zip_eq_some, Binds]

/-- The homes in bound parameters are those in the one that decides. -/
theorem boundHomes?_some {homes : List Nat} (h : boundHomes? n column s params = some homes) :
    ∃ i v, Decides s params column i v ∧ homes = v.homes n := by
  rw [boundHomes?_eq_findSome?, List.findSome?_eq_some_iff] at h
  obtain ⟨before, ⟨bound, v⟩, after, hsplit, hslot, hbefore⟩ := h
  obtain ⟨rfl, hscalar, hhomes⟩ := slotHomes?_eq_some.mp hslot
  have hbinds : Binds s params column before.length v := by
    rw [binds_iff, hsplit, List.getElem?_append_right (Nat.le_refl _), Nat.sub_self]
    rfl
  refine ⟨before.length, v, ⟨hbinds, hscalar, fun j u hj hu => ?_⟩, hhomes⟩
  have hearlier := binds_iff.mp hu
  rw [hsplit, List.getElem?_append_left hj] at hearlier
  exact slotHomes?_eq_none.mp (hbefore _ (List.mem_of_getElem? hearlier)) rfl

/-- If no parameter decides, then none that is bound holds a scalar. -/
theorem boundHomes?_none (h : boundHomes? n column s params = none)
    (hbinds : Binds s params column i v) : ¬ v.HasScalar := by
  rw [boundHomes?_eq_findSome?, List.findSome?_eq_none_iff] at h
  exact slotHomes?_eq_none.mp (h _ (List.mem_of_getElem? (binds_iff.mp hbinds))) rfl

/-! ### Where tables send a statement -/

/-- A table of some name sends a statement to a partition. For a hashed table the deciding parameter
is asked, and all partitions are meant if there is none; any other table is read at the base
partition and written at all of them. -/
def Sends (c : Catalog) (s : Statement) (params : List Value) (base : Nat) (name : String) (t : Table)
    (q : Nat) : Prop :=
  match t.partitioning with
  | some (.hash column) =>
    (∃ i v w, Decides s params ⟨name, column⟩ i v ∧ v.Contains w ∧ w.home? c.partitions = some q)
      ∨ (∀ i v, Binds s params ⟨name, column⟩ i v → ¬ v.HasScalar) ∧ q < c.partitions
  | some .replicated | none => if s.isReadOnly then q = base else q < c.partitions

variable {name : String} {t : Table} {column : String} {q : Nat} {touched : PartitionSet}

/-- A table with a partitioning column is hashed by it. -/
theorem partitioning_eq (h : t.partitionColumn? = some column) :
    t.partitioning = some (.hash column) := by
  rw [Table.partitionColumn?] at h
  split at h
  case h_1 hhash =>
    cases h
    exact hhash
  case h_2 => cases h

/-- Where a hashed table sends a statement: to the homes of the parameter that decides, and
everywhere if there is none. -/
theorem sends_hashed (h : t.partitioning = some (.hash column)) :
    c.Sends s params base name t q ↔
      (∃ i v w, Decides s params ⟨name, column⟩ i v ∧ v.Contains w ∧ w.home? c.partitions = some q)
        ∨ (∀ i v, Binds s params ⟨name, column⟩ i v → ¬ v.HasScalar) ∧ q < c.partitions := by
  rw [Sends, h]

/-- Where a table that is not hashed sends a statement: to the base partition to read, and
everywhere to write. -/
theorem sends_unhashed (h : t.partitionColumn? = none) :
    c.Sends s params base name t q ↔ if s.isReadOnly then q = base else q < c.partitions := by
  rw [Table.partitionColumn?] at h
  rw [Sends]
  split
  case h_1 hhash =>
    rw [hhash] at h
    cases h
  case h_2 | h_3 => rfl

/-- Every table sends a statement somewhere. If no value that is bound to its column decides on a
home, it is all partitions, and there is one at least. -/
theorem exists_sends (hc : 0 < c.partitions) (s : Statement) (params : List Value) (base : Nat)
    (name : String) (t : Table) : ∃ q, c.Sends s params base name t q := by
  cases hhash : t.partitionColumn? with
  | none =>
    simp only [sends_unhashed hhash]
    split
    · exact ⟨base, rfl⟩
    · exact ⟨0, hc⟩
  | some column =>
    simp only [sends_hashed (partitioning_eq hhash)]
    cases hhomes : boundHomes? c.partitions ⟨name, column⟩ s params with
    | none => exact ⟨0, .inr ⟨fun i v => boundHomes?_none hhomes, hc⟩⟩
    | some homes =>
      obtain ⟨i, v, hdecides, _⟩ := boundHomes?_some hhomes
      obtain ⟨w, hw, hscalar⟩ := hdecides.scalar
      obtain ⟨q, hq⟩ := w.exists_home? c.partitions hscalar
      exact ⟨q, .inl ⟨i, v, w, hdecides, hw, hq⟩⟩

/-- The partitions touched for a table are those that it sends the statement to. For a table with a
partitioning column there are two cases, with a parameter that decides and without; all others are
sent by how the table is spread. -/
theorem mem_tablePartitions_iff (h : c.tablePartitions s params base name = .ok touched) :
    ∃ t, c.table? name = some t ∧ ∀ q, q ∈ touched ↔ c.Sends s params base name t q := by
  have hall : ∀ q, q ∈ c.allPartitions ↔ q < c.partitions := fun q => PartitionSet.mem_below
  rw [tablePartitions] at h
  split at h
  · cases h
  case h_2 t ht =>
  refine ⟨t, ht, fun q => ?_⟩
  split at h
  case h_1 column hhash =>
    rw [sends_hashed hhash]
    split at h
    -- A parameter decides, and no other one can.
    case h_1 homes hhomes =>
      obtain ⟨i, v, hdecides, rfl⟩ := boundHomes?_some hhomes
      cases h
      rw [PartitionSet.mem_ofList, Value.mem_homes_iff]
      constructor
      · rintro ⟨w, hw, hq⟩
        exact .inl ⟨i, v, w, hdecides, hw, hq⟩
      · rintro (⟨j, u, w, hother, hw, hq⟩ | ⟨hnone, _⟩)
        · obtain ⟨_, rfl⟩ := hdecides.unique hother
          exact ⟨w, hw, hq⟩
        · exact absurd hdecides.scalar (hnone i v hdecides.binds)
    case h_2 hnone =>
      have hfree : ∀ i v, Binds s params ⟨name, column⟩ i v → ¬ v.HasScalar :=
        fun i v => boundHomes?_none hnone
      cases h
      rw [hall]
      refine ⟨fun hq => .inr ⟨hfree, hq⟩, ?_⟩
      rintro (⟨i, v, _, hdecides, _⟩ | ⟨_, hq⟩)
      · exact absurd hdecides.scalar (hfree i v hdecides.binds)
      · exact hq
  all_goals
    cases h
    rename_i hunhashed
    rw [sends_unhashed (by rw [Table.partitionColumn?, hunhashed])]
    split
    · exact PartitionSet.mem_singleton
    · exact hall q

/-- What is touched for several tables is what is touched for one of them. The set so far is a
parameter, as it grows along the list of names. -/
theorem mem_foldlM_tablePartitions_iff {names : List String} {set : PartitionSet}
    (h : names.foldlM (fun set name => do
      pure (set.union (← c.tablePartitions s params base name))) set = .ok touched) :
    (∀ name ∈ names, ∃ t, c.table? name = some t)
      ∧ ∀ q, q ∈ touched ↔ q ∈ set
        ∨ ∃ name ∈ names, ∃ t, c.table? name = some t ∧ c.Sends s params base name t q := by
  induction names generalizing set with
  | nil =>
    cases h
    exact ⟨nofun, fun q => by simp⟩
  | cons name names ih =>
    obtain ⟨set', hset, h⟩ := Outcome.foldlM_cons_iff.mp h
    cases htable : c.tablePartitions s params base name with
    | error e =>
      rw [htable] at hset
      cases hset
    | ok more =>
    rw [htable] at hset
    cases hset
    -- The partitions of the first table are added to the set, and those of the other tables after
    -- them.
    obtain ⟨t, ht, hmore⟩ := mem_tablePartitions_iff htable
    obtain ⟨hknown, hrest⟩ := ih h
    refine ⟨List.forall_mem_cons.mpr ⟨⟨t, ht⟩, hknown⟩, fun q => ?_⟩
    rw [hrest, PartitionSet.mem_union, hmore]
    simp only [List.mem_cons, exists_eq_or_imp, ht, Option.some.injEq, exists_eq_left', or_assoc]

/-- What the partitions touched by a statement have in common with its tables and parameters. -/
structure Covered (c : Catalog) (s : Statement) (params : List Value) (base : Nat)
    (touched : PartitionSet) : Prop where
  nonempty : ∃ q, q ∈ touched
  within : ∀ q ∈ touched, q < c.partitions
  known : ∀ name ∈ s.tables, ∃ t, c.table? name = some t
  /-- A table that is not hashed is read at the base partition, and written everywhere. -/
  read : ∀ name ∈ s.tables, ∀ t, c.table? name = some t → t.partitionColumn? = none →
    s.isReadOnly = true → base ∈ touched
  written : ∀ name ∈ s.tables, ∀ t, c.table? name = some t → t.partitionColumn? = none →
    s.isReadOnly = false → ∀ q < c.partitions, q ∈ touched
  /-- A hashed table is used everywhere if no scalar is bound to its partitioning column. -/
  unbound : ∀ name ∈ s.tables, ∀ t column, c.table? name = some t →
    t.partitioning = some (.hash column) →
    (∀ i v, Binds s params ⟨name, column⟩ i v → ¬ v.HasScalar) → ∀ q < c.partitions, q ∈ touched
  /-- Otherwise it is used at the home of every scalar that is bound to the column, unless an earlier
  parameter is bound to the column and holds a scalar. -/
  bound : ∀ name ∈ s.tables, ∀ t column, c.table? name = some t →
    t.partitioning = some (.hash column) → ∀ i v, Binds s params ⟨name, column⟩ i v →
    (∀ j u, j < i → Binds s params ⟨name, column⟩ j u → ¬ u.HasScalar) →
    ∀ w, v.Contains w → w.isScalar = true → ∃ q ∈ touched, w.home? c.partitions = some q
  /-- Nothing else is touched, but for the base partition if there is no table. -/
  mem_iff : ∀ q, q ∈ touched ↔ s.tables = [] ∧ q = base
    ∨ ∃ name ∈ s.tables, ∃ t, c.table? name = some t ∧ c.Sends s params base name t q

/-- The partitions that a statement touches are those that its tables send it to, and the base
partition if it has no table. -/
theorem mem_statementPartitions_iff (hc : 0 < c.partitions)
    (h : c.statementPartitions s params base = .ok touched) :
    (∀ name ∈ s.tables, ∃ t, c.table? name = some t)
      ∧ ∀ q, q ∈ touched ↔ s.tables = [] ∧ q = base
        ∨ ∃ name ∈ s.tables, ∃ t, c.table? name = some t ∧ c.Sends s params base name t q := by
  rw [statementPartitions] at h
  cases hfold : s.tables.foldlM (fun set name => do
      pure (set.union (← c.tablePartitions s params base name))) (∅ : PartitionSet) with
  | error e =>
    rw [hfold] at h
    cases h
  | ok all =>
  rw [hfold] at h
  cases h
  obtain ⟨hknown, hmem⟩ := mem_foldlM_tablePartitions_iff hfold
  simp only [PartitionSet.not_mem_empty, false_or] at hmem
  -- Every table sends the statement somewhere, so that nothing is touched only without tables.
  have hempty : all.isEmpty = true ↔ s.tables = [] := by
    rw [PartitionSet.isEmpty, List.isEmpty_iff]
    constructor
    · intro hnil
      refine List.eq_nil_iff_forall_not_mem.mpr fun name hname => ?_
      obtain ⟨t, ht⟩ := hknown name hname
      obtain ⟨q, hq⟩ := exists_sends hc s params base name t
      have hq := PartitionSet.mem_def.mp ((hmem q).mpr ⟨name, hname, t, ht, hq⟩)
      rw [hnil] at hq
      cases hq
    · intro hnil
      refine List.eq_nil_iff_forall_not_mem.mpr fun q hq => ?_
      obtain ⟨name, hname, _⟩ := (hmem q).mp (PartitionSet.mem_def.mpr hq)
      rw [hnil] at hname
      cases hname
  refine ⟨hknown, fun q => ?_⟩
  split
  case isTrue hnone => simp [hempty.mp hnone]
  case isFalse hsome => simp [mt hempty.mpr hsome, hmem]

/-- A statement that is routed is routed by its tables and by what is bound to their partitioning
columns. It goes to some partition, and to those of the catalog only. Of the parameters that are
bound to the column of a hashed table the first that holds a scalar is covered, however deep its
scalars are; later ones need not be. -/
theorem statementPartitions_covered (hc : 0 < c.partitions) (hbase : base < c.partitions)
    (h : c.statementPartitions s params base = .ok touched) : c.Covered s params base touched := by
  obtain ⟨hknown, hmem⟩ := mem_statementPartitions_iff hc h
  have hsent : ∀ {name t q}, name ∈ s.tables → c.table? name = some t →
      c.Sends s params base name t q → q ∈ touched :=
    fun hname ht hq => (hmem _).mpr (.inr ⟨_, hname, _, ht, hq⟩)
  refine ⟨?_, statementPartitions_lt hc hbase h, hknown, fun name hname t ht hnone hread => ?_,
    fun name hname t ht hnone hwrite q hq => ?_, fun name hname t column ht hhash hfree q hq => ?_,
    fun name hname t column ht hhash i v hbinds hfirst w hw hscalar => ?_, hmem⟩
  -- Without tables the statement goes to its base partition; with one, that table sends it
  -- somewhere.
  · cases htables : s.tables with
    | nil => exact ⟨base, (hmem base).mpr (.inl ⟨htables, rfl⟩)⟩
    | cons name names =>
      have hname : name ∈ s.tables := htables ▸ List.mem_cons_self
      obtain ⟨t, ht⟩ := hknown name hname
      obtain ⟨q, hq⟩ := exists_sends hc s params base name t
      exact ⟨q, hsent hname ht hq⟩
  · refine hsent hname ht ((sends_unhashed hnone).mpr ?_)
    rw [if_pos hread]
  · refine hsent hname ht ((sends_unhashed hnone).mpr ?_)
    rwa [if_neg (by rw [hwrite]; exact Bool.false_ne_true)]
  · exact hsent hname ht ((sends_hashed hhash).mpr (.inr ⟨hfree, hq⟩))
  · obtain ⟨q, hq⟩ := w.exists_home? c.partitions hscalar
    have hdecides : Decides s params ⟨name, column⟩ i v := ⟨hbinds, ⟨w, hw, hscalar⟩, hfirst⟩
    exact ⟨q, hsent hname ht ((sends_hashed hhash).mpr (.inl ⟨i, v, w, hdecides, hw, hq⟩)), hq⟩

/-! ### Two parameters bound to one column -/

/-- Accounts that are spread over two partitions by their number. -/
def accounts : Catalog := ⟨2, [⟨"account", ["id"], ["id"], some (.hash "id")⟩], []⟩

/-- Reads two accounts. -/
def balances : Statement :=
  ⟨0, "balances", .select, ["account"], [some ⟨"account", "id"⟩, some ⟨"account", "id"⟩]⟩

/-- A first parameter without a scalar leaves it to the second to decide, down to its innermost list. -/
theorem statementPartitions_covered_balances :
    ∃ touched, accounts.statementPartitions balances
        [.list [.null], .list [.int 4, .list [.null, .int 3]]] 0 = .ok touched
      ∧ accounts.Covered balances [.list [.null], .list [.int 4, .list [.null, .int 3]]] 0 touched
      ∧ 1 ∈ touched := by
  have hrun : (accounts.statementPartitions balances
      [.list [.null], .list [.int 4, .list [.null, .int 3]]] 0).toOption
        = some (.ofList [0, 1]) := by
    decide +kernel
  have hrun := Outcome.of_toOption hrun
  exact ⟨_, hrun, statementPartitions_covered (by decide) (by decide) hrun, by decide⟩

/-- A scalar that is bound to the partitioning column is not always covered. Two accounts are bound
to the column of one table, and only the first one counts. -/
theorem second_account_uncovered :
    ¬ ∀ (c : Catalog) (s : Statement) (params : List Value) (base : Nat) (touched : PartitionSet),
      0 < c.partitions → base < c.partitions → c.statementPartitions s params base = .ok touched →
      ∀ name ∈ s.tables, ∀ t column, c.table? name = some t →
        t.partitioning = some (.hash column) → ∀ i v, Binds s params ⟨name, column⟩ i v →
        ∀ w, v.Contains w → w.isScalar = true → ∃ q ∈ touched, w.home? c.partitions = some q := by
  intro hall
  have hrun : (accounts.statementPartitions balances [.int 0, .int 1] 0).toOption
      = some (.singleton 0) := by
    decide +kernel
  have hrun := Outcome.of_toOption hrun
  obtain ⟨q, hq, hhome⟩ := hall accounts balances [.int 0, .int 1] 0 _ (by decide) (by decide) hrun
    "account" (by decide) _ "id" rfl rfl 1 (.int 1) ⟨rfl, rfl⟩ (.int 1) (.self _) rfl
  rw [PartitionSet.mem_singleton.mp hq] at hhome
  cases hhome

end Catalog

end TxnPath
