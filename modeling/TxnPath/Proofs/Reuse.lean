import TxnPath.Proofs.Outcome
import TxnPath.Txn.Dependency
import TxnPath.Txn.Prepare
import TxnPath.Walk

/-!
# `TxnPath.Proofs.Reuse`: what is put away comes back as new

Walkers, estimates, dependency records and prepare callbacks are pooled: one transaction after
another uses the same object. Finishing a record or a callback clears all of it. A finished walker
keeps its confidence, and a finished estimate its probabilities and the size of its counters; these
are overwritten when the object is taken into use again.

`StartsAnew` says that nothing is left over: whatever has become of an object, once it is finished
it answers as a new one does, from the input on that takes it into use. Each of the four types is
given by the inputs that its objects take (`Walker.startsAnew`, `Estimate.startsAnew`,
`DependencyRecord.startsAnew`, `PrepareCallback.startsAnew`).
-/

set_option autoImplicit false

namespace TxnPath

open Outcome (Agree)

/-! ### Objects that answer inputs -/

section Conversations

variable {α ι ρ : Type} {respond : α → ι → Except Fault (α × ρ)} {rel : α → α → Prop} {a a' : α}

/-- What an object answers to one input after another, and what it has become by then. -/
def converse (respond : α → ι → Except Fault (α × ρ)) : α → List ι → Except Fault (α × List ρ)
  | a, [] => .ok (a, [])
  | a, i :: rest => do
    let (a, answer) ← respond a i
    let (a, answers) ← converse respond a rest
    pure (a, answer :: answers)

/-- Objects that stay related by giving the same answers do so all along. -/
theorem agree_converse (hrespond : ∀ {a a'} i, rel a a' → Agree rel (respond a i) (respond a' i))
    (h : rel a a') (inputs : List ι) :
    Agree rel (converse respond a inputs) (converse respond a' inputs) := by
  induction inputs generalizing a a' with
  | nil => exact .ok h []
  | cons i rest ih =>
    rw [converse, converse]
    refine (hrespond i h).bind fun answer h₁ => ?_
    exact (ih h₁).bind fun answers h₂ => .ok h₂ _

/-- Whatever has become of an object, once it is finished it answers as a new one does, if the first
input is of the kind that takes it into use. -/
def StartsAnew [Poolable α] (respond : α → ι → Except Fault (α × ρ)) (enters : ι → Prop) (new : α) :
    Prop :=
  ∀ (a : α) (first : ι) (rest : List ι), enters first →
    converse respond (Poolable.finish a) (first :: rest) = converse respond new (first :: rest)

/-- It is enough that the first input makes the same of both. -/
theorem startsAnew_of_first [Poolable α] {enters : ι → Prop} {new : α}
    (h : ∀ a first, enters first → respond (Poolable.finish a) first = respond new first) :
    StartsAnew respond enters new := by
  intro a first rest hfirst
  rw [converse, h a first hfirst, converse]

end Conversations

variable {R : Type}

/-! ### Estimates -/

namespace Estimate

/-- What can be done with an estimate. -/
inductive Input (R : Type) where
  | init (vertex : Nat) (point : EstimatePoint) (partitions : Nat)
  | copyFrom (other : Estimate R)
  | set (field : PartitionField) (p : Nat) (x : R)
  | setSingle (x : R)
  | setAbort (x : R)
  | setPoint (point : EstimatePoint)
  | setConfidence (x : R)
  | touch (p : Nat)
  | setTouched (counts : DenseHistogram)

/-- The inputs that take an estimate into use. -/
def Input.enters : Input R → Prop
  | .init .. | .copyFrom _ => True
  | _ => False

/-- What an estimate becomes. -/
def take (e : Estimate R) : Input R → Except Fault (Estimate R)
  | .init vertex point n => .ok (e.init vertex point n)
  | .copyFrom other => .ok (e.copyFrom other)
  | .set field p x => e.set? field p x
  | .setSingle x => .ok { e with probs := { e.probs with single := some x } }
  | .setAbort x => .ok { e with probs := { e.probs with abort := some x } }
  | .setPoint point => .ok { e with point := some point }
  | .setConfidence x => .ok { e with confidence := some x }
  | .touch p => e.touch? p
  | .setTouched counts => .ok { e with touched := counts }

/-- Whatever is read off an estimate after an input, it is read off what it then is. -/
def respond (e : Estimate R) (i : Input R) : Except Fault (Estimate R × Estimate R) :=
  (e.take i).map fun e => (e, e)

/-- Taking an estimate into use leaves nothing of it. -/
theorem init_eq (e : Estimate R) (v : Nat) (point : EstimatePoint) (n : Nat) :
    e.init v point n = .start v point n := rfl

/-- An estimate that copies another one is the other one. -/
theorem copyFrom_eq (e other : Estimate R) : e.copyFrom other = other := rfl

/-- An estimate that was finished starts anew with the first input that enters a vertex. -/
theorem startsAnew : StartsAnew respond Input.enters (new : Estimate R) := by
  refine startsAnew_of_first fun e first hfirst => ?_
  rw [respond, respond]
  cases first with
  | init v point n => rw [take, take, init_eq, init_eq]
  | copyFrom other => rw [take, take, copyFrom_eq, copyFrom_eq]
  | _ => exact hfirst.elim

end Estimate

/-! ### Walkers -/

namespace Walker

variable {w : Walker R}

/-- What a walk would look at is as in a new walker. -/
structure Clean (w : Walker R) : Prop where
  isInitialized : w.isInitialized = false
  greatestAbort : w.greatestAbort = none
  touched : w.touched = ∅
  read : w.read = ∅
  written : w.written = ∅
  visited : w.visited = []
  forced : w.forced = []

variable [Scalar R]

/-- A walker that has finished is clean: of what it knew only the confidence and the estimate are
left over, and a walk looks at neither before it sets it. -/
theorem clean_finish (w : Walker R) : w.finish.Clean := ⟨rfl, rfl, rfl, rfl, rfl, rfl, rfl⟩

/-- A new walker is clean as well. -/
theorem clean_new : (new : Walker R).Clean := ⟨rfl, rfl, rfl, rfl, rfl, rfl, rfl⟩

/-- A walk sets the confidence and the estimate before it looks at them. -/
theorem Clean.traverse (h : w.Clean) (j : Journey R) (origin : Nat) :
    w.traverse j origin = new.traverse j origin := by
  obtain ⟨isInitialized, confidence, greatestAbort, touched, read, written, visited, forced, e⟩ := w
  cases h.isInitialized
  cases h.greatestAbort
  cases h.touched
  cases h.read
  cases h.written
  cases h.visited
  cases h.forced
  rw [Walker.traverse, Walker.traverse, Estimate.init_eq, Estimate.init_eq]
  rfl

/-- A walk, with all that can be read off the walker after it. -/
def respond (w : Walker R) (i : Journey R × Nat) : Except Fault (Walker R × Walker R) :=
  (w.traverse i.1 i.2).map fun w => (w, w)

/-- A walker that was finished starts anew with every input, since a walk sets its confidence first.
-/
theorem startsAnew : StartsAnew respond (fun _ => True) (new : Walker R) := by
  refine startsAnew_of_first fun w first _ => ?_
  rw [respond, respond]
  exact congrArg _ (w.clean_finish.traverse first.1 first.2)

end Walker

/-! ### Dependency records -/

namespace DependencyRecord

/-- What can be done with a dependency record. -/
inductive Input where
  | start (statement : Nat) (dependency : DependencyId)
  | addProducer (p : Nat)
  | addResult (p : Nat) (table : ResultTable)
  | takeResults (base : Nat)
  | block (task : TaskId)
  | release

/-- What a dependency record answers: the results that are taken out of it, or the tasks that it
hands out. -/
inductive Answer where
  | noted
  | results (tables : List ResultTable)
  | tasks (ready : Option (List TaskId))

/-- What a dependency record becomes, and what it answers. -/
def respond (r : DependencyRecord) : Input → Except Fault (DependencyRecord × Answer)
  | .start statement dependency => (r.start statement dependency).map fun r => (r, .noted)
  | .addProducer p => .ok (r.addProducer p, .noted)
  | .addResult p table => (r.addResult p table).map fun r => (r, .noted)
  | .takeResults base => .ok ((r.takeResults base).1, .results (r.takeResults base).2)
  | .block task => .ok (r.block task, .noted)
  | .release => .ok (r.release.1, .tasks r.release.2)

/-- A dependency record that was finished is a new one. -/
theorem finish_eq (r : DependencyRecord) : Poolable.finish r = new := rfl

/-- So it starts anew with whatever input. -/
theorem startsAnew : StartsAnew respond (fun _ => True) new :=
  startsAnew_of_first fun r first _ => by rw [finish_eq]

end DependencyRecord

/-! ### Prepare callbacks -/

namespace PrepareCallback

/-- What can be done with a prepare callback. -/
inductive Input where
  | start (txn : TxnId) (expected : PartitionSet)
  | expect (partitions : PartitionSet)
  | acknowledge (partitions : PartitionSet)
  | refuse

/-- What a prepare callback becomes. -/
def take (c : PrepareCallback) : Input → Except Fault PrepareCallback
  | .start txn expected => c.start txn expected
  | .expect partitions => .ok (c.expect partitions)
  | .acknowledge partitions => c.acknowledge partitions
  | .refuse => .ok c.refuse

/-- A prepare callback tells after every input where the preparation stands. -/
def respond (c : PrepareCallback) (i : Input) : Except Fault (PrepareCallback × PrepareOutcome) :=
  (c.take i).map fun c => (c, c.outcome)

/-- A prepare callback that was finished is a new one. -/
theorem finish_eq (c : PrepareCallback) : Poolable.finish c = new := rfl

/-- And it starts anew with whatever input. -/
theorem startsAnew : StartsAnew respond (fun _ => True) new :=
  startsAnew_of_first fun c first _ => by rw [finish_eq]

end PrepareCallback

end TxnPath
