import TxnPath.Fault
import TxnPath.Router.Basic

/-!
# Routing by the catalog

A call belongs to the home of its routing argument, or to partition zero if its procedure has no
routing parameter. A statement touches, for each of its tables:

* hashed: the homes of all scalars in the first parameter that is bound to the partitioning column
  and holds any, or every partition if there is no such parameter;
* replicated or not partitioned: the base partition if it only reads, else every partition.

A statement without tables touches the base partition.
-/

set_option autoImplicit false

namespace TxnPath

namespace Value

mutual

/-- The homes of all scalars in a value, lists within lists included. -/
def homes (n : Nat) : Value → List Nat
  | .list items => homesOfItems n items
  | v => (v.home? n).toList

/-- The homes of all scalars in a list of values. -/
def homesOfItems (n : Nat) : List Value → List Nat
  | [] => []
  | v :: rest => homes n v ++ homesOfItems n rest

end

end Value

namespace Catalog

/-- The homes in the first parameter that is bound to a column and has any. -/
def boundHomes? (n : Nat) (column : ColumnRef) (s : Statement) (params : List Value) : Option (List Nat) :=
  (s.params.zip params).findSome? fun (bound, v) =>
    if bound = some column then
      match v.homes n with
      | [] => none
      | homes => some homes
    else none

/-- The partitions that a statement touches for one of its tables. -/
def tablePartitions (c : Catalog) (s : Statement) (params : List Value) (base : Nat) (name : String) :
    Except Error PartitionSet :=
  match c.table? name with
  | none => .error (.catalog (.tableName name))
  | some t =>
    match t.partitioning with
    | some (.hash column) =>
      match boundHomes? c.partitions ⟨name, column⟩ s params with
      | some homes => .ok (.ofList homes)
      | none => .ok c.allPartitions
    | some .replicated | none =>
      .ok (if s.isReadOnly then .singleton base else c.allPartitions)

/-- The partitions that a statement touches. -/
def statementPartitions (c : Catalog) (s : Statement) (params : List Value) (base : Nat) :
    Except Error PartitionSet := do
  let touched ← s.tables.foldlM (fun set name => do
    pure (set.union (← c.tablePartitions s params base name))) (∅ : PartitionSet)
  pure (if touched.isEmpty then .singleton base else touched)

/-- The partition that owns a call. -/
def basePartition (c : Catalog) (p : Procedure) (args : List Value) : Except Error Nat :=
  match p.routingParam with
  | none => .ok 0
  | some i =>
    match args[i]? with
    | none => .error (.routing (.missingParameter p.name i args.length))
    | some v =>
      match v.home? c.partitions with
      | none => .error (.routing (.homeless p.name))
      | some home => .ok home

/-- The router of a catalog that has partitions to spread values over. -/
def router (c : Catalog) : Except Fault Router :=
  if c.partitions = 0 then .error .nowhereToHash
  else .ok
    { partitions := c.partitions
      base := c.basePartition
      route := fun _ s params base => c.statementPartitions s params base }

end Catalog

end TxnPath
