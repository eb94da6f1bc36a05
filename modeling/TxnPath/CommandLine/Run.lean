import TxnPath.Codec.Config
import TxnPath.Codec.Design
import TxnPath.Codec.Mapping
import TxnPath.Codec.Trace
import TxnPath.CommandLine.Help
import TxnPath.Config.Environment
import TxnPath.Design.Planner
import TxnPath.Forecast
import TxnPath.Graph.Sanity
import TxnPath.Archive.Basic
import TxnPath.Router.ByCatalog

/-!
# Running commands

A run reads and writes files and prints. How files are reached is left to the surroundings, so that
the same run works on real files and on a table of texts. A run ends with its first failure; what it
printed before stays printed.
-/

set_option autoImplicit false

namespace TxnPath.CommandLine

/-- What surrounds a run. An access to a file that is refused comes with the reason. -/
structure Surroundings (m : Type → Type) where
  /-- Reads a file. -/
  readFile : String → m (Except String String)
  /-- Writes a file. -/
  writeFile : String → String → m (Except String Unit)
  /-- The variables of the environment. -/
  setting? : String → Option String

/-- What a run printed. -/
structure Transcript where
  /-- The results. -/
  output : String
  /-- The diagnostics. -/
  diagnostics : String
  deriving DecidableEq

/-- Why a run ends early. -/
inductive Failure where
  /-- A file cannot be read. -/
  | reading (path reason : String)
  /-- A file or an argument is not what it should be. -/
  | parsing (source : String)
  /-- A file cannot be written. -/
  | writing (reason : String)
  /-- Some graphs are out of balance. -/
  | insane (count : Nat)
  /-- An error of the graphs, the catalog or the routing. -/
  | core (cause : Error)
  /-- An error of the design. -/
  | design (cause : DesignError)
  /-- A broken promise. -/
  | fault (cause : Fault)
  deriving DecidableEq

namespace Failure

/-- The wording of a failure. -/
def message : Failure → String
  | .reading path reason => s!"reading {path}: {reason}"
  | .parsing source => s!"parsing {source}: not a document of the expected form"
  | .writing reason => reason
  | .insane count => s!"{count} graphs failed the sanity check"
  | .core cause => cause.message
  | .design cause => cause.message
  | .fault cause => cause.message

/-- The exit code of a run that fails. -/
def code : Failure → Nat
  | .fault _ => 101
  | _ => 1

end Failure

/-- A step of a run. -/
abbrev RunM (m : Type → Type) := ExceptT Failure (StateT Transcript m)

section Steps
variable {m : Type → Type} [Monad m] {α : Type}

/-- Prints a line of results. -/
def say (line : String) : RunM m Unit :=
  modify fun t => { t with output := t.output ++ line ++ "\n" }

/-- Prints a line of diagnostics. -/
def warn (line : String) : RunM m Unit :=
  modify fun t => { t with diagnostics := t.diagnostics ++ line ++ "\n" }

/-- Goes on with a result, or fails with what is wrong. -/
def orFail {ε : Type} (failure : ε → Failure) (x : Except ε α) : RunM m α :=
  match x with
  | .ok a => pure a
  | .error e => throw (failure e)

/-- Goes on with a result, or fails with a broken promise or with what is wrong. -/
def orStop {ε : Type} (failure : ε → Failure) (x : Except Fault (Except ε α)) : RunM m α := do
  orFail failure (← orFail .fault x)

/-- The typed value of a text. -/
def parsed (decode : Json → Option α) (source text : String) : RunM m α :=
  match (Json.parse? text).bind decode with
  | some a => pure a
  | none => throw (.parsing source)

variable (s : Surroundings m)

/-- The text of a file. -/
def fileText (path : String) : RunM m (Except String String) := monadLift (s.readFile path)

/-- The typed value in a file. -/
def readTyped (decode : Json → Option α) (path : String) : RunM m α := do
  parsed decode path (← orFail (Failure.reading path) (← fileText s path))

/-- The typed value in a file, or a default if no file is named. -/
def readOptional (decode : Json → Option α) (default : α) : Option String → RunM m α
  | some path => readTyped s decode path
  | none => pure default

/-- The catalog in a file, validated. -/
def readCatalog (path : String) : RunM m Catalog := do
  let catalog ← readTyped s Catalog.ofJson? path
  orFail .core catalog.validate
  pure catalog

/-- The correlations in a file. -/
def readMappings (path : Option String) : RunM m (MappingTable Float) :=
  readOptional s MappingTable.ofJson? ∅ path

/-- The archive in a file. -/
def readArchive (path : String) : RunM m Archive := do
  let text ← orFail (fun reason => Failure.core (.file reason)) (← fileText s path)
  orFail .core (Archive.ofText text)

end Steps

/-- What is reported about the forecast of a call, by ascending names of the fields. -/
def report (procedure : String) (f : Forecast Float) (t : Thresholds Float) : Json :=
  let e := f.initial
  .obj [("abortable", .bool (e.isAbortable t)),
    ("base_partition", .nat f.key.base),
    ("confidence", .option .real e.confidence),
    ("path_length", .nat f.initialPath.length),
    ("procedure", .str procedure),
    ("read_only_partitions", .list .nat (e.readOnlyPartitions t).toList),
    ("single_partition", .bool (e.isSinglePartition t)),
    ("touched_partitions", .list .nat (e.touchedPartitions t).toList),
    ("write_partitions", .list .nat (e.writePartitions t).toList)]

section Commands
variable {m : Type → Type} [Monad m] (s : Surroundings m)

/-- Builds graphs from a workload and writes their archive. Correlations are read but not needed. -/
def train (catalog workload : String) (mappings : Option String) (output : String) : RunM m Unit := do
  let c ← readCatalog s catalog
  let traces ← readTyped s (Json.list? Trace.ofJson?) workload
  discard (readMappings s mappings)
  let router ← orFail .fault c.router
  let (store, trained) ← orFail .fault ((∅ : GraphStore Float).train c router traces)
  let count ← orFail .core trained
  let archive ← orFail .core (store.toArchive c)
  orFail (fun reason => Failure.core (.file reason)) (← monadLift (s.writeFile output archive.text))
  say s!"✓ Trained {store.size} graphs from {count} traces"

/-- Forecasts one call of a procedure and prints the report. -/
def estimate (catalog graphs : String) (mappings : Option String) (procedure params : String) :
    RunM m Unit := do
  let c ← readCatalog s catalog
  let mappings ← readMappings s mappings
  let args ← parsed Value.listOfJson? "--params" params
  let archive ← readArchive s graphs
  let store ← orStop .core (archive.toStore c)
  let router ← orFail .fault c.router
  let config := Config.ofEnvironment s.setting?
  let p ← orFail .core (c.procedureNamed procedure)
  let forecaster := Forecaster.new c router mappings config store
  let (_, started) ← orFail .fault (forecaster.start 1 p.id args)
  let forecast ← orFail .core started
  say (report procedure forecast config.thresholds).indented

/-- Plans how to partition a catalog, and prints the plan or writes the catalog that follows it. -/
def partition (catalog : String) (sizes hints workload mappings output : Option String) :
    RunM m Unit := do
  let c ← readCatalog s catalog
  let sizes ← readOptional s (Json.table? Json.word?) [] sizes
  let hints ← readOptional s Hints.ofJson? .empty hints
  let traces ← readOptional s (Json.list? Trace.ofJson?) [] workload
  let mappings ← readMappings s mappings
  let statistics ← orFail .design (Statistics.ofWorkload c traces fun name => sizes.lookup name)
  let plan ← orStop .design (Planner.mk c statistics mappings hints).generate
  match output with
  | none => say plan.toJson.indented
  | some path =>
    let (c, applied) := plan.apply c
    orFail .design applied
    orFail .writing (← monadLift (s.writeFile path c.toJson.indented))
    say s!"✓ Wrote partitioned catalog to {path}"

/-- Checks the digest of an archive and, given a catalog, the balance of its graphs. -/
def validate (graphs : String) (catalog : Option String) : RunM m Unit := do
  let archive ← readArchive s graphs
  orFail .core archive.verify
  say s!"✓ Digest matches ({archive.graphs.length} graphs)"
  if let some path := catalog then
    let c ← readCatalog s path
    let loaded : List (Graph Float) ← orStop .core (archive.toGraphs c)
    let insane := loaded.filter fun g => !g.isSane
    for g in insane do
      warn s!"graph for {g.procedure.text} at {partitionText g.base} has unbalanced edge probabilities"
    if !insane.isEmpty then throw (.insane insane.length)
    say "✓ All graphs are sane"

/-- Carries out a command. -/
def Command.run : Command → RunM m Unit
  | .train catalog workload mappings output => CommandLine.train s catalog workload mappings output
  | .estimate catalog graphs mappings procedure params =>
    CommandLine.estimate s catalog graphs mappings procedure params
  | .partition catalog sizes hints workload mappings output =>
    CommandLine.partition s catalog sizes hints workload mappings output
  | .validate graphs catalog => CommandLine.validate s graphs catalog

/-- How a run ended. -/
structure Outcome where
  /-- What it printed. -/
  transcript : Transcript
  /-- Its exit code. -/
  code : Nat
  /-- Why it ended early, if a command did. -/
  failure : Option Failure
  deriving DecidableEq

/-- Runs a command line. A line that cannot be understood ends with code 2. -/
def run (args : List String) : m Outcome :=
  match Request.ofArguments args with
  | .help topic => pure ⟨⟨help topic, ""⟩, 0, none⟩
  | .refused cause =>
    pure ⟨⟨"", s!"error: {cause.message}\n\nFor more information, try '--help'.\n"⟩, 2, none⟩
  | .run command => do
    let (result, transcript) ← (command.run s).run ⟨"", ""⟩
    match result with
    | .ok () => pure ⟨transcript, 0, none⟩
    | .error failure =>
      let diagnostics := transcript.diagnostics ++ s!"Error: {failure.message}\n"
      pure ⟨{ transcript with diagnostics := diagnostics }, failure.code, some failure⟩

end Commands

end TxnPath.CommandLine
