import TxnPath.Json.Record
import TxnPath.Work.Engine

/-!
# Scripted executors

Executors that follow a script, for rehearsing a site without a store. A batch yields one table per
output: the number of the partition, and below it all rows of the tables that the fragment at the same
position consumes. A script can make a batch fail, keep its results back, or drop or repeat some of
them.
-/

set_option autoImplicit false

namespace TxnPath

/-- How scripted executors answer. -/
structure EngineScript where
  /-- The fragment whose batch fails. -/
  failFragment : Option Nat
  /-- The code of that failure. -/
  failCode : Int
  /-- Whether results are kept back. -/
  withhold : Bool
  /-- The dependencies whose results are dropped. -/
  dropped : List DependencyId
  /-- The dependencies whose results come twice. -/
  repeated : List DependencyId
  deriving DecidableEq

namespace EngineScript

/-- The table of the output at a position. -/
def tableAt (p : Nat) (b : Batch) (i : Nat) : ResultTable :=
  let inputs := ((b.inputs[i]?).join.bind fun d => b.tables.lookup d).getD []
  ⟨["partition"], [.int p] :: inputs.flatMap ResultTable.rows⟩

/-- What is delivered for the output at a position. -/
def deliver (s : EngineScript) (p : Nat) (b : Batch) (output : DependencyId × Nat) : Deliveries :=
  let (d, i) := output
  let count := if s.dropped.contains d then 0 else if s.repeated.contains d then 2 else 1
  List.replicate count (d, tableAt p b i)

/-- The executors that follow a script. -/
def engine (s : EngineScript) : Engine where
  execute _ p b :=
    if s.failFragment.any b.fragments.contains then .error ⟨s.failCode⟩
    else if s.withhold then .ok []
    else .ok (b.outputs.zipIdx.flatMap (s.deliver p b))

/-- Reads a script; whatever it leaves out or gives as `null` is as usual. -/
def ofJson? (j : Json) : Option EngineScript := do
  let read := fun {α : Type} (name : String) (decode : Json → Option α) =>
    Json.nullable? decode (j.field name)
  pure
    { failFragment := ← read "fail_fragment" Json.word?
      failCode := (← read "fail_code" Json.signedWord?).getD 1
      withhold := (← read "withhold" Json.bool?).getD false
      dropped := (← read "drop_deps" (Json.list? Json.halfWord?)).getD []
      repeated := (← read "dup_deps" (Json.list? Json.halfWord?)).getD [] }

end EngineScript

end TxnPath
