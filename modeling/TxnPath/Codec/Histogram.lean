import TxnPath.Histogram.Basic
import TxnPath.Histogram.Dense
import TxnPath.Json.Number
import TxnPath.Json.Record

/-!
# Histograms as JSON

A histogram is written as the object of its counts beside the number of samples; a key that is a
number is written as the text of it. A histogram over a fixed domain is written slot by slot.
Reading takes the counters as they are written, whether or not they agree with the counts.
-/

set_option autoImplicit false

namespace TxnPath

namespace Histogram

open Std (TransOrd)

variable {K : Type} [Ord K] [TransOrd K]

/-- A histogram as JSON, given how its keys are written. -/
def toJson (keyText : K → String) (h : Histogram K) : Json :=
  .obj [("histogram", .obj (h.toList.map fun (k, n) => (keyText k, .nat n))),
    ("num_samples", .nat h.samples)]

/-- Reads a histogram, given how its keys are read. -/
def ofJson? (key? : String → Option K) (j : Json) : Option (Histogram K) := do
  let r ← j.record? ["histogram", "num_samples"]
  let counts ← r.required "histogram" fun
    | .obj fields => fields.mapM fun (name, n) => do pure (← key? name, ← n.word?)
    | _ => none
  let samples ← r.required "num_samples" Json.word?
  pure ⟨counts.foldl (fun m e => m.insert e.1 e.2) ∅, samples⟩

/-- Reads a key that is a whole number, written as a JSON number. -/
def integerKey? (s : String) : Option Int :=
  match Json.readNumber s.toList with
  | some (j, []) => j.signedWord?
  | _ => none

end Histogram

namespace DenseHistogram

/-- A histogram over a fixed domain as JSON. -/
def toJson (h : DenseHistogram) : Json :=
  .obj [("histogram", .list .int h.slots.toList), ("value_count", .nat h.observed),
    ("num_samples", .nat h.samples)]

/-- Reads a histogram over a fixed domain. -/
def ofJson? (j : Json) : Option DenseHistogram := do
  let r ← j.record? ["histogram", "value_count", "num_samples"]
  pure
    { slots := (← r.required "histogram" (Json.list? Json.signedWord?)).toArray
      observed := ← r.required "value_count" Json.word?
      samples := ← r.required "num_samples" Json.word? }

end DenseHistogram

end TxnPath
