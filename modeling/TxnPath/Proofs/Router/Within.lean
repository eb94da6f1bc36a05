import TxnPath.Router.ByCatalog

/-!
# `TxnPath.Proofs.Router.Within`: routers that stay within the partitions

A router is asked where work belongs, and everything that asks takes the answer for partitions
of its cluster. `Router.Within` states this of a router, and `Catalog.router_within` proves it of
the router of a catalog: whatever the values are, they are spread over the partitions that
there are.
-/

set_option autoImplicit false

namespace TxnPath

variable {n : Nat}

/-- Calls belong to one of the first `n` partitions, and statements of calls that do touch only
these. -/
structure Router.Within (r : Router) (n : Nat) : Prop where
  base : ∀ p args b, r.base p args = .ok b → b < n
  route : ∀ p s params b touched, b < n → r.route p s params b = .ok touched →
    ∀ q ∈ touched, q < n

/-! ### Homes of values -/

namespace Value

/-- The home of a scalar is one of the partitions. An integer is reduced to a remainder that is not
negative, also if the integer is. -/
theorem home?_lt (hn : 0 < n) {v : Value} {q : Nat} (h : v.home? n = some q) : q < n := by
  cases v with
  | null => cases h
  | list items => cases h
  | int i =>
    obtain rfl := Option.some.inj h
    have hpos : (0 : Int) < n := Int.natCast_pos.mpr hn
    have hlt := Int.emod_lt_of_pos i hpos
    have hge := Int.emod_nonneg i (Int.ne_of_gt hpos)
    omega
  | real bits =>
    obtain rfl := Option.some.inj h
    exact Nat.mod_lt _ hn
  | str s =>
    obtain rfl := Option.some.inj h
    exact Nat.mod_lt _ hn

mutual

/-- So are the homes of a value with all that is in it. -/
theorem homes_lt (hn : 0 < n) : ∀ (v : Value), ∀ q ∈ v.homes n, q < n
  | .list items => by
    rw [homes]
    exact homesOfItems_lt hn items
  | .null | .int _ | .real _ | .str _ => by
    intro q hq
    rw [homes] at hq
    · exact home?_lt hn (Option.mem_toList.mp hq)
    all_goals exact nofun

/-- And those of a list of values. -/
theorem homesOfItems_lt (hn : 0 < n) : ∀ (items : List Value), ∀ q ∈ homesOfItems n items, q < n
  | [] => nofun
  | v :: rest => by
    intro q hq
    rw [homesOfItems] at hq
    exact (List.mem_append.mp hq).elim (homes_lt hn v q) (homesOfItems_lt hn rest q)

end

end Value

/-! ### The router of a catalog -/

namespace Catalog

variable {c : Catalog}

/-- So are the homes of the parameter that decides. -/
theorem boundHomes?_lt (hn : 0 < n) {column : ColumnRef} {s : Statement} {params : List Value}
    {homes : List Nat} (h : boundHomes? n column s params = some homes) : ∀ q ∈ homes, q < n := by
  obtain ⟨⟨bound, v⟩, _, hv⟩ := List.exists_of_findSome?_eq_some h
  dsimp only at hv
  split at hv
  · split at hv
    · cases hv
    · obtain rfl := Option.some.inj hv
      exact v.homes_lt hn
  · cases hv

/-- The partitions touched for one table are partitions of the catalog. The home of a value is below
their number, the base partition is given to be, and there are no others in the set of all. -/
theorem tablePartitions_lt (hc : 0 < c.partitions) {s : Statement} {params : List Value}
    {base : Nat} (hbase : base < c.partitions) {name : String} {touched : PartitionSet}
    (h : c.tablePartitions s params base name = .ok touched) : ∀ q ∈ touched, q < c.partitions := by
  have hall : ∀ q ∈ c.allPartitions, q < c.partitions := fun q hq => PartitionSet.mem_below.mp hq
  rw [tablePartitions] at h
  split at h
  · cases h
  · split at h
    · split at h
      case h_1 hhomes =>
        cases h
        intro q hq
        exact boundHomes?_lt hc hhomes q (PartitionSet.mem_ofList.mp hq)
      case h_2 => cases h; exact hall
    -- A table that is not hashed sends a statement to its base partition, or to all there are.
    all_goals
      cases h
      split
      · intro q hq
        rw [PartitionSet.mem_singleton.mp hq]
        exact hbase
      · exact hall

/-- The partitions touched for several tables are partitions of the catalog. This goes along the
list of names, from a set of which it holds already. -/
theorem foldlM_tablePartitions_lt (hc : 0 < c.partitions) {s : Statement} {params : List Value}
    {base : Nat} (hbase : base < c.partitions) {names : List String} {set touched : PartitionSet}
    (hset : ∀ q ∈ set, q < c.partitions)
    (h : names.foldlM (fun set name => do
      pure (set.union (← c.tablePartitions s params base name))) set = .ok touched) :
    ∀ q ∈ touched, q < c.partitions := by
  induction names generalizing set with
  | nil =>
    cases h
    exact hset
  | cons name names ih =>
    rw [List.foldlM_cons] at h
    cases htable : c.tablePartitions s params base name with
    | error e =>
      rw [htable] at h
      cases h
    | ok more =>
      rw [htable] at h
      refine ih (fun q hq => ?_) h
      rcases PartitionSet.mem_union.mp hq with hq | hq
      · exact hset q hq
      · exact tablePartitions_lt hc hbase htable q hq

/-- The partitions that a statement touches are partitions of the catalog. A statement that names no
tables is sent to its base partition. -/
theorem statementPartitions_lt (hc : 0 < c.partitions) {s : Statement} {params : List Value}
    {base : Nat} (hbase : base < c.partitions) {touched : PartitionSet}
    (h : c.statementPartitions s params base = .ok touched) : ∀ q ∈ touched, q < c.partitions := by
  rw [statementPartitions] at h
  cases hfold : s.tables.foldlM (fun set name => do
      pure (set.union (← c.tablePartitions s params base name))) (∅ : PartitionSet) with
  | error e =>
    rw [hfold] at h
    cases h
  | ok all =>
    rw [hfold] at h
    cases h
    split
    · intro q hq
      rw [PartitionSet.mem_singleton.mp hq]
      exact hbase
    · exact foldlM_tablePartitions_lt hc hbase
        (fun q hq => absurd hq (PartitionSet.not_mem_empty q)) hfold

/-- The partition that owns a call is a partition of the catalog. -/
theorem basePartition_lt (hc : 0 < c.partitions) {p : Procedure} {args : List Value} {b : Nat}
    (h : c.basePartition p args = .ok b) : b < c.partitions := by
  rw [basePartition] at h
  split at h
  · cases h
    exact hc
  · split at h
    · cases h
    · split at h
      · cases h
      case h_2 hhome =>
        cases h
        exact Value.home?_lt hc hhome

/-- The router of a catalog stays within the partitions of the catalog. -/
theorem router_within {r : Router} (h : c.router = .ok r) : r.Within c.partitions := by
  rw [router] at h
  split at h
  · cases h
  case isFalse hzero =>
    cases h
    have hc := Nat.pos_of_ne_zero hzero
    exact ⟨fun _ _ _ => basePartition_lt hc,
      fun _ _ _ _ _ hbase hroute => statementPartitions_lt hc hbase hroute⟩

end Catalog

end TxnPath
