import TxnPath.Graph.Basic

/-!
# Sanity of a graph

No two edges may lead from one vertex to another, and the probabilities of the edges that leave a
vertex must sum to one, up to a tolerance, wherever there are any.
-/

set_option autoImplicit false

namespace TxnPath

/-- A vertex whose outgoing probabilities do not sum to one. -/
structure MassViolation (R : Type) where
  vertex : Nat
  /-- What they sum to. -/
  total : R
  deriving DecidableEq

/-- What is wrong with a vertex. -/
inductive SanityViolation (R : Type) where
  /-- An edge leads where an earlier one leads already. -/
  | duplicateEdge (source target : Nat)
  /-- The vertex is out of balance. -/
  | probabilityMass (violation : MassViolation R)
  deriving DecidableEq

/-- The targets that were met before, given those met so far, in order. -/
def metAgain : List Nat → List Nat → List Nat
  | _, [] => []
  | met, target :: rest =>
    if target ∈ met then target :: metAgain met rest else metAgain (target :: met) rest

namespace Graph

variable {R : Type} [Scalar R]

/-- How far a sum may be off. -/
def massTolerance : R := Scalar.ratio 1 100000

/-- The sum of the probabilities of the edges that leave a vertex. -/
def outgoingMass (g : Graph R) (v : Nat) : R :=
  Scalar.sum ((g.outgoing v).map fun e => e.1.probability)

/-- A vertex, if it is out of balance. -/
def imbalance? (g : Graph R) (v : Nat) : Option (MassViolation R) :=
  let total := g.outgoingMass v
  -- A vertex that no path went on from has no mass to balance.
  if !(g.outgoing v).isEmpty ∧ massTolerance < Scalar.distance total 1 then some ⟨v, total⟩ else none

/-- The vertices that are out of balance, in order. -/
def violations (g : Graph R) : List (MassViolation R) :=
  (List.range g.vertices.size).filterMap g.imbalance?

/-- What is wrong with a vertex: its duplicate edges, then its mass. -/
def violationsAt (g : Graph R) (v : Nat) : List (SanityViolation R) :=
  (metAgain [] ((g.outgoing v).map fun e => e.1.target)).map (.duplicateEdge v) ++
    (g.imbalance? v).toList.map .probabilityMass

/-- All that is wrong, vertex by vertex. -/
def sanityViolations (g : Graph R) : List (SanityViolation R) :=
  (List.range g.vertices.size).flatMap g.violationsAt

/-- Whether nothing is wrong. -/
def isSane (g : Graph R) : Bool := g.sanityViolations.isEmpty

/-- Stops at the first thing that is wrong. -/
def assertSane (g : Graph R) : Except Fault Unit :=
  match g.sanityViolations with
  | [] => .ok ()
  | .duplicateEdge source target :: _ =>
    .error (.duplicateEdge g.procedure g.base source target)
  | .probabilityMass v :: _ =>
    .error (.unbalanced g.procedure g.base v.vertex (Scalar.diagnostic v.total))

end Graph

end TxnPath
