/-!
# Command lines

The commands of the tool with the options that they take, and how a command line is read. Every option
takes a value, which follows it as an argument of its own or is attached to it (`-cF`, `-c=F`,
`--catalog=F`). An argument that looks like an option is never taken for a value that stands alone.
Arguments are looked at from left to right, and the first thing that is wrong, or asks for help,
decides.
-/

set_option autoImplicit false

namespace TxnPath.CommandLine

/-- An option. -/
structure OptionSpec where
  /-- Its long name. -/
  name : String
  /-- Its short name, if it has one. -/
  letter : Option Char
  /-- Whether it must be given. -/
  isRequired : Bool
  /-- Whether its value names a file. Such a value cannot be empty. -/
  isPath : Bool
  /-- The value that it has when it is not given. -/
  default : Option String
  /-- What help says about it. -/
  about : String

/-- An option that must name a file. -/
def OptionSpec.file (name : String) (letter : Char) (about : String) : OptionSpec :=
  ⟨name, some letter, true, true, none, about⟩

/-- An option that may name a file. -/
def OptionSpec.optionalFile (name : String) (letter : Option Char) (about : String) : OptionSpec :=
  ⟨name, letter, false, true, none, about⟩

/-- A command with its options, in the order of help. -/
structure CommandSpec where
  name : String
  /-- What help says about it. -/
  about : String
  options : List OptionSpec

/-- The command that builds graphs from a workload. -/
def trainSpec : CommandSpec where
  name := "train"
  about := "Build execution-path graphs from a workload of transaction traces"
  options :=
    [.file "catalog" 'c' "Catalog JSON",
      .file "workload" 'w' "Workload JSON (array of transaction traces)",
      .optionalFile "mappings" (some 'm') "Parameter correlations JSON",
      .file "output" 'o' "Where to write the graphs document"]

/-- The command that forecasts one call of a procedure. -/
def estimateSpec : CommandSpec where
  name := "estimate"
  about := "Print the initial estimate for one procedure invocation"
  options :=
    [.file "catalog" 'c' "",
      .file "graphs" 'g' "Graphs document written by `train`",
      .optionalFile "mappings" (some 'm') "",
      ⟨"procedure", some 'p', true, false, none, "Procedure name"⟩,
      ⟨"params", none, false, false, some "[]", "Procedure arguments as a JSON array"⟩]

/-- The command that plans how to partition a catalog. -/
def partitionSpec : CommandSpec where
  name := "partition"
  about := "Generate a primary-key partition plan"
  options :=
    [.file "catalog" 'c' "",
      .optionalFile "stats" (some 's') "Table sizes JSON (table name to total tuple bytes)",
      .optionalFile "hints" none "Designer hints JSON",
      .optionalFile "workload" (some 'w') "",
      .optionalFile "mappings" (some 'm') "",
      .optionalFile "output" (some 'o') "Write the updated catalog here instead of printing the plan"]

/-- The command that checks a document of graphs. -/
def validateSpec : CommandSpec where
  name := "validate"
  about := "Check a graphs document's digest (and graph sanity, given a catalog)"
  options := [.file "graphs" 'g' "", .optionalFile "catalog" (some 'c') ""]

/-- All commands, in the order of help. -/
def commandSpecs : List CommandSpec := [trainSpec, estimateSpec, partitionSpec, validateSpec]

/-- A command with its options. -/
inductive Command where
  /-- Build graphs from a workload and write them. -/
  | train (catalog workload : String) (mappings : Option String) (output : String)
  /-- Forecast one call of a procedure. -/
  | estimate (catalog graphs : String) (mappings : Option String) (procedure params : String)
  /-- Plan how to partition a catalog, and print the plan or write the catalog that follows it. -/
  | partition (catalog : String) (sizes hints workload mappings output : Option String)
  /-- Check a document of graphs. -/
  | validate (graphs : String) (catalog : Option String)
  deriving DecidableEq

/-- What can be wrong with a command line. -/
inductive UsageError where
  /-- There is no command. -/
  | noCommand
  /-- There is no command of this name. -/
  | unknownCommand (name : String)
  /-- An argument is neither an option nor the value of one. -/
  | unexpected (argument : String)
  /-- An option is given twice. -/
  | repeated (option : String)
  /-- An option has no value. -/
  | noValue (option : String)
  /-- An option that names a file is empty. -/
  | emptyPath (option : String)
  /-- An option that must be given is not. -/
  | missing (option : String)
  deriving DecidableEq

/-- The wording of a usage error. -/
def UsageError.message : UsageError → String
  | .noCommand => "a subcommand is required"
  | .unknownCommand name => s!"unrecognized subcommand '{name}'"
  | .unexpected argument => s!"unexpected argument '{argument}' found"
  | .repeated option => s!"the argument '--{option}' cannot be used multiple times"
  | .noValue option => s!"a value is required for '--{option}' but none was supplied"
  | .emptyPath option => s!"a value is required for '--{option}' but none was supplied"
  | .missing option => s!"the required argument '--{option}' was not provided"

/-- What a command line asks for. -/
inductive Request where
  /-- Carry out a command. -/
  | run (command : Command)
  /-- Print help, on all commands or on one. -/
  | help (topic : Option CommandSpec)
  /-- Nothing that can be carried out. -/
  | refused (cause : UsageError)

/-- An argument, taken apart. -/
inductive Argument where
  /-- An option by its long name, with the value attached to it. -/
  | long (name : String) (value : Option String)
  /-- An option by its short name, with the value attached to it. -/
  | short (letter : Char) (value : Option String)
  /-- The mark behind which no options come. -/
  | separator
  /-- Any other text. -/
  | plain (text : String)
  deriving DecidableEq

/-- Takes an argument apart. -/
def Argument.ofString (s : String) : Argument :=
  match s.toList with
  | ['-', '-'] => .separator
  | '-' :: '-' :: cs =>
    .long (String.ofList (cs.takeWhile (· ≠ '=')))
      (match cs.dropWhile (· ≠ '=') with
        | [] => none
        | _ :: value => some (String.ofList value))
  | ['-', c] => .short c none
  | '-' :: c :: '=' :: value => .short c (some (String.ofList value))
  | '-' :: c :: value => .short c (some (String.ofList value))
  | _ => .plain s

/-- Whether an argument can be a value that stands alone. -/
def Argument.isPlain : Argument → Bool
  | .plain _ => true
  | _ => false

/-- The values of options by their long names. -/
abbrev Given := List (String × String)

/-- Adds the value of an option. -/
def Given.put (given : Given) (o : OptionSpec) (value : String) : Except UsageError Given :=
  if given.any fun g => g.1 == o.name then .error (.repeated o.name)
  else if o.isPath && value.isEmpty then .error (.emptyPath o.name)
  else .ok (given ++ [(o.name, value)])

/-- The option that an argument names, with the value attached to it. -/
def CommandSpec.option (spec : CommandSpec) (arg : String) : Except Request (OptionSpec × Option String) :=
  match Argument.ofString arg with
  | .separator | .plain _ => .error (.refused (.unexpected arg))
  | .long name value =>
    match spec.options.find? fun o => o.name == name with
    | some o => .ok (o, value)
    | none =>
      .error (if name = "help" ∧ value.isNone then .help (some spec) else .refused (.unexpected arg))
  | .short letter value =>
    match spec.options.find? fun o => o.letter == some letter with
    | some o => .ok (o, value)
    | none => .error (if letter = 'h' then .help (some spec) else .refused (.unexpected arg))

/-- Reads the options of a command. What ends the reading early is a request of its own. -/
def readOptions (spec : CommandSpec) : Given → List String → Except Request Given
  | given, [] | given, ["--"] => .ok given
  | given, arg :: rest =>
    match spec.option arg, rest with
    | .error r, _ => .error r
    | .ok (o, some value), rest =>
      match given.put o value with
      | .error e => .error (.refused e)
      | .ok given => readOptions spec given rest
    | .ok (o, none), value :: rest =>
      if (Argument.ofString value).isPlain then
        match given.put o value with
        | .error e => .error (.refused e)
        | .ok given => readOptions spec given rest
      else .error (.refused (.noValue o.name))
    | .ok (o, none), [] => .error (.refused (.noValue o.name))

/-- The value of an option that must be given. -/
def Given.required (given : Given) (name : String) : Except UsageError String :=
  match given.lookup name with
  | some value => .ok value
  | none => .error (.missing name)

/-- The command of a name with the options given. -/
def Command.ofGiven (name : String) (given : Given) : Except UsageError Command := do
  match name with
  | "train" =>
    pure (.train (← given.required "catalog") (← given.required "workload") (given.lookup "mappings")
      (← given.required "output"))
  | "estimate" =>
    pure (.estimate (← given.required "catalog") (← given.required "graphs") (given.lookup "mappings")
      (← given.required "procedure") ((given.lookup "params").getD "[]"))
  | "partition" =>
    pure (.partition (← given.required "catalog") (given.lookup "stats") (given.lookup "hints")
      (given.lookup "workload") (given.lookup "mappings") (given.lookup "output"))
  | "validate" => pure (.validate (← given.required "graphs") (given.lookup "catalog"))
  | _ => throw (.unknownCommand name)

/-- What a command with arguments asks for. -/
def CommandSpec.request (spec : CommandSpec) (args : List String) : Request :=
  match readOptions spec [] args with
  | .error r => r
  | .ok given =>
    match Command.ofGiven spec.name given with
    | .error e => .refused e
    | .ok command => .run command

/-- What a command line asks for. -/
def Request.ofArguments : List String → Request
  | [] => .refused .noCommand
  | arg :: rest =>
    match Argument.ofString arg, rest with
    | .plain "help", [] => .help none
    | .plain "help", topic :: more =>
      match commandSpecs.find? fun spec => spec.name == topic, more with
      | some spec, [] => .help (some spec)
      | some _, extra :: _ => .refused (.unknownCommand extra)
      | none, _ => .refused (.unknownCommand topic)
    | .plain name, rest =>
      match commandSpecs.find? fun spec => spec.name == name with
      | some spec => spec.request rest
      | none => .refused (.unknownCommand name)
    | .long "help" none, _ | .short 'h' _, _ => .help none
    | _, _ => .refused (.unexpected arg)

end TxnPath.CommandLine
