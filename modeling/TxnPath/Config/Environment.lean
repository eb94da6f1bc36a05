import TxnPath.Config.Basic
import TxnPath.Text.Blank
import TxnPath.Text.Numeral

/-!
# Configuration from the environment

Every setting with a variable of its own takes that variable's value, if it is set and can be read;
all others keep their defaults.
-/

set_option autoImplicit false

namespace TxnPath.Config

/-- A comma-separated list of partitions; blanks around them and empty parts do not count. -/
def partitionList? (s : String) : Option (List Nat) :=
  let parts := (s.toList.splitOnP (· = ',')).map Text.trim
  (parts.filter fun part => !part.isEmpty).mapM fun part =>
    Text.natural? halfWordLimit (String.ofList part)

/-- The variables that are looked at. -/
def variableNames : List String :=
  ["MARKOVDB_LOCAL_PARTITIONS", "MARKOVDB_MARKOV_ENABLE", "MARKOVDB_MARKOV_PATH",
    "MARKOVDB_FORCE_TRAVERSAL", "MARKOVDB_MIN_HITS_FOR_ABORT", "MARKOVDB_RECOMPUTE_TOLERANCE",
    "MARKOVDB_RECOMPUTE_MIN_TXNS", "MARKOVDB_POOL_IDLE", "MARKOVDB_LATCH_TIMEOUT_MS"]

/-- The configuration that the environment gives. -/
def ofEnvironment (setting? : String → Option String) : Config Float :=
  let read : {α : Type} → String → (String → Option α) → α → α := fun name parse default =>
    ((setting? name).bind parse).getD default
  let c : Config Float := .default
  { c with
    localPartitions := read "MARKOVDB_LOCAL_PARTITIONS" partitionList? c.localPartitions
    predict := read "MARKOVDB_MARKOV_ENABLE" Text.truth? c.predict
    graphsPath := (setting? "MARKOVDB_MARKOV_PATH").or c.graphsPath
    forceTraversal := read "MARKOVDB_FORCE_TRAVERSAL" Text.truth? c.forceTraversal
    minHitsForAbort := read "MARKOVDB_MIN_HITS_FOR_ABORT" (Text.natural? wordLimit) c.minHitsForAbort
    recomputeTolerance := read "MARKOVDB_RECOMPUTE_TOLERANCE" Text.real? c.recomputeTolerance
    recomputeMinTxns := read "MARKOVDB_RECOMPUTE_MIN_TXNS" (Text.natural? wordLimit) c.recomputeMinTxns
    poolIdle := read "MARKOVDB_POOL_IDLE" (Text.natural? wordLimit) c.poolIdle
    latchTimeout :=
      ((setting? "MARKOVDB_LATCH_TIMEOUT_MS").bind (Text.natural? wordLimit)).or c.latchTimeout }

end TxnPath.Config
