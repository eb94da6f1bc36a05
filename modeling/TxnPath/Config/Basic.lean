import TxnPath.Error
import TxnPath.Mapping

/-!
# Configuration of a site

Which partitions a site hosts, how it predicts transactions, and when it recomputes its graphs.
`Config.validate` refuses cut-offs that are no probabilities, then a share of stale vertices that
is none, then a negative tolerance.
-/

set_option autoImplicit false

namespace TxnPath

/-- The cut-offs that turn probabilities into decisions. -/
structure Thresholds (R : Type) where
  singlePartition : R
  read : R
  write : R
  done : R
  abort : R
  deriving DecidableEq

namespace Thresholds

variable {R : Type} [Scalar R]

/-- The default cut-offs. -/
def default : Thresholds R where
  singlePartition := Scalar.ratio 9 10
  read := Scalar.ratio 9 10
  write := Scalar.ratio 5 10
  done := Scalar.ratio 9 10
  abort := Scalar.ratio 1 10000

/-- One cut-off for every decision. -/
def uniform (t : R) : Thresholds R := ⟨t, t, t, t, t⟩

/-- The cut-offs with the names that messages use. -/
def named (t : Thresholds R) : List (String × R) :=
  [("single_partition", t.singlePartition), ("read", t.read), ("write", t.write), ("done", t.done),
    ("abort", t.abort)]

end Thresholds

/-- The configuration of a site. -/
structure Config (R : Type) where
  /-- The partitions that the site hosts; none means all of them. -/
  localPartitions : List Nat
  /-- Whether transactions are predicted from graphs. -/
  predict : Bool
  /-- Where the graphs are stored. -/
  graphsPath : Option String
  /-- Whether a walk without a matching successor takes any. -/
  forceTraversal : Bool
  /-- How often a graph must have been started before its abort probabilities count. -/
  minHitsForAbort : Nat
  /-- How far the recent rate of a vertex may drift from its overall rate. -/
  recomputeTolerance : R
  /-- The share of drifted vertices from which a graph is recomputed. -/
  recomputeProportion : R
  /-- How many transactions make up a window that is checked for drift. -/
  recomputeMinTxns : Nat
  /-- How to choose among several correlations. -/
  policy : MappingPolicy
  /-- How many idle objects a pool keeps. -/
  poolIdle : Nat
  /-- The cut-offs for decisions. -/
  thresholds : Thresholds R
  /-- How long to wait for results, in milliseconds; none means without end. -/
  latchTimeout : Option Nat
  deriving DecidableEq

namespace Config

variable {R : Type} [Scalar R]

/-- The default configuration. -/
def default : Config R where
  localPartitions := []
  predict := true
  graphsPath := none
  forceTraversal := false
  minHitsForAbort := 20
  recomputeTolerance := Scalar.ratio 5 100
  recomputeProportion := Scalar.ratio 5 10
  recomputeMinTxns := 10
  policy := .firstFound
  poolIdle := 64
  thresholds := .default
  latchTimeout := none

/-- The first thing that is wrong with a configuration, if there is one. -/
def validate (c : Config R) : Except Error Unit :=
  match c.thresholds.named.find? fun (_, t) => !(decide ((0 : R) ≤ t) && decide (t ≤ (1 : R))) with
  | some (name, t) => .error (.config (.threshold name (Scalar.plain t)))
  | none =>
    if ¬ ((0 : R) < c.recomputeProportion ∧ c.recomputeProportion ≤ (1 : R)) then
      .error (.config (.proportion (Scalar.plain c.recomputeProportion)))
    else if c.recomputeTolerance < (0 : R) then .error (.config .tolerance)
    else .ok ()

end Config

end TxnPath
