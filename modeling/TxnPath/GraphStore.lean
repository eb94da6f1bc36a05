import Std.Data.ExtTreeMap
import TxnPath.Graph.Recompute
import TxnPath.Graph.Replay

/-!
# Graph stores

The graphs of a site, one per base partition and procedure, in ascending order of both. A graph is
created, with its sentinels, when it is first asked for. Training replays traces into their graphs
and recomputes every graph that received one.
-/

set_option autoImplicit false

namespace TxnPath

open Std (ExtTreeMap TransCmp LawfulEqCmp)

/-- What a graph is stored under. -/
structure GraphKey where
  /-- The base partition. -/
  base : Nat
  /-- The procedure. -/
  procedure : ProcedureId
  deriving DecidableEq

/-- Keys are ordered by base partition, then by procedure. -/
def GraphKey.order : GraphKey → GraphKey → Ordering :=
  compareLex (compareOn GraphKey.base) (compareOn GraphKey.procedure)

instance : TransCmp GraphKey.order := inferInstanceAs (TransCmp (compareLex _ _))

instance : LawfulEqCmp GraphKey.order where
  compare_self {a} := by simp [GraphKey.order, compareLex, compareOn]
  eq_of_compare {a b} h := by
    cases a; cases b
    simp only [GraphKey.order, compareLex, compareOn, Ordering.then_eq_eq, Nat.compare_eq_eq] at h
    simp [h.1, h.2]

/-- The key of a graph. -/
def Graph.key {R : Type} (g : Graph R) : GraphKey := ⟨g.base, g.procedure⟩

/-- The graphs of a site. -/
structure GraphStore (R : Type) where
  /-- The graphs by key. -/
  graphs : ExtTreeMap GraphKey (Graph R) GraphKey.order

namespace GraphStore

variable {R : Type}

/-- The store without graphs. -/
def empty : GraphStore R := ⟨∅⟩

instance : EmptyCollection (GraphStore R) := ⟨empty⟩

instance : Inhabited (GraphStore R) := ⟨empty⟩

/-- The graph of a key. -/
def get? (s : GraphStore R) (k : GraphKey) : Option (Graph R) := s.graphs[k]?

/-- Sets the graph of a key. -/
def set (s : GraphStore R) (k : GraphKey) (g : Graph R) : GraphStore R := ⟨s.graphs.insert k g⟩

/-- Adds a graph under its own key. -/
def insert (s : GraphStore R) (g : Graph R) : GraphStore R := s.set g.key g

/-- The graph of a key in a store for `n` partitions, a fresh one if there is none yet. -/
def getOrCreate (s : GraphStore R) (k : GraphKey) (n : Nat) : GraphStore R × Graph R :=
  match s.get? k with
  | some g => (s, g)
  | none =>
    let g := Graph.fresh k.procedure k.base n
    (s.set k g, g)

/-- The number of graphs. -/
def size (s : GraphStore R) : Nat := s.graphs.size

/-- Whether there are no graphs. -/
def isEmpty (s : GraphStore R) : Bool := s.graphs.isEmpty

/-- The graphs with their keys, ascending. -/
def toList (s : GraphStore R) : List (GraphKey × Graph R) := s.graphs.toList

@[simp] theorem get?_set_self (s : GraphStore R) (k : GraphKey) (g : Graph R) :
    (s.set k g).get? k = some g := by
  simp [get?, set]

theorem get?_set_ne (s : GraphStore R) {k k' : GraphKey} (g : Graph R) (h : k ≠ k') :
    (s.set k g).get? k' = s.get? k' := by
  have : GraphKey.order k k' ≠ .eq := fun e => h (LawfulEqCmp.eq_of_compare e)
  simp [get?, set, ExtTreeMap.getElem?_insert, this]

/-- Two stores with the same graph under every key are the same. -/
theorem ext_get? {s t : GraphStore R} (h : ∀ k, s.get? k = t.get? k) : s = t := by
  cases s; cases t
  congr 1
  exact ExtTreeMap.ext_getElem? h

section Training

variable [Scalar R]

/-- Where a trace is replayed: its procedure and the key of its graph. -/
def placeOf (c : Catalog) (r : Router) (t : Trace) : Except Error (Procedure × GraphKey) :=
  match c.procedure t.procedure with
  | .error e => .error e
  | .ok p =>
    match r.base p t.params with
    | .error e => .error e
    | .ok base => .ok (p, ⟨base, p.id⟩)

/-- Replays one trace into its graph. Gives the key of the graph. -/
def replay (s : GraphStore R) (c : Catalog) (r : Router) (t : Trace) :
    Except Fault (GraphStore R × Except Error GraphKey) :=
  match placeOf c r t with
  | .error e => .ok (s, .error e)
  | .ok (p, k) =>
    let (s, g) := s.getOrCreate k c.partitions
    match g.replay t p r with
    | .error f => .error f
    | .ok (g, .error e) => .ok (s.set k g, .error e)
    | .ok (g, .ok _) => .ok (s.set k g, .ok k)

/-- Replays traces up to the first that fails. Gives the keys of the graphs that received one. -/
def replayAll (c : Catalog) (r : Router) :
    GraphStore R → List Trace → Except Fault (GraphStore R × Except Error (List GraphKey))
  | s, [] => .ok (s, .ok [])
  | s, t :: rest =>
    match s.replay c r t with
    | .error f => .error f
    | .ok (s, .error e) => .ok (s, .error e)
    | .ok (s, .ok k) =>
      match replayAll c r s rest with
      | .error f => .error f
      | .ok (s, .error e) => .ok (s, .error e)
      | .ok (s, .ok ks) => .ok (s, .ok (k :: ks))

/-- Recomputes the graph of a key. -/
def recompute (s : GraphStore R) (k : GraphKey) : Except Fault (GraphStore R) :=
  match s.get? k with
  | none => .ok s
  | some g => g.recompute.map (s.set k)

/-- Recomputes every graph. -/
def recomputeAll (s : GraphStore R) : Except Fault (GraphStore R) :=
  (s.toList.map Prod.fst).foldlM recompute s

/-- Replays traces and recomputes the graphs that received one. Gives the number of traces. When a
trace fails, those before it stay recorded, and nothing is recomputed. -/
def train (s : GraphStore R) (c : Catalog) (r : Router) (traces : List Trace) :
    Except Fault (GraphStore R × Except Error Nat) :=
  match s.replayAll c r traces with
  | .error f => .error f
  | .ok (s, .error e) => .ok (s, .error e)
  | .ok (s, .ok ks) => (ks.eraseDups.foldlM recompute s).map fun s => (s, .ok traces.length)

end Training

end GraphStore

end TxnPath
