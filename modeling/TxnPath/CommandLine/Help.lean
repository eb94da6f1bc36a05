import TxnPath.CommandLine.Arguments

/-!
# Help

The text that describes all commands, or the options of one.
-/

set_option autoImplicit false

namespace TxnPath.CommandLine

/-- The name that the tool is called by. -/
def toolName : String := "markovdb"

/-- What help says about the tool. -/
def toolAbout : String :=
  "Execution-path models and partitioning for a partitioned transaction engine"

/-- Fills a text up with blanks. -/
def padded (width : Nat) (s : String) : String :=
  s ++ String.ofList (List.replicate (width - s.length) ' ')

/-- Lines of two columns, the second of which begins two blanks behind the longest entry of the first. -/
def columns (rows : List (String × String)) : String :=
  let width := rows.foldl (fun w row => max w row.1.length) 0
  String.join (rows.map fun row => "  " ++ padded (width + 2) row.1 ++ row.2 ++ "\n")

namespace OptionSpec

/-- An option with a placeholder for its value. -/
def usage (o : OptionSpec) : String := s!"--{o.name} <{o.name.toUpper}>"

/-- What help shows of an option. -/
def row (o : OptionSpec) : String × String :=
  let mark := match o.letter with
    | some c => s!"-{c}, "
    | none => "    "
  let value := match o.default with
    | some v => s!" [default: {v}]"
    | none => ""
  (mark ++ o.usage, o.about ++ value)

end OptionSpec

/-- Help on one command. -/
def CommandSpec.help (spec : CommandSpec) : String :=
  let optional := if spec.options.all OptionSpec.isRequired then "" else " [OPTIONS]"
  let required := (spec.options.filter OptionSpec.isRequired).map fun o => " " ++ o.usage
  s!"{spec.about}\n\nUsage: {toolName} {spec.name}" ++ optional ++ String.join required ++
    "\n\nOptions:\n" ++ columns (spec.options.map OptionSpec.row ++ [("-h, --help", "Print help")])

/-- Help on all commands. -/
def generalHelp : String :=
  s!"{toolAbout}\n\nUsage: {toolName} <COMMAND>\n\nCommands:\n" ++
    columns (commandSpecs.map (fun spec => (spec.name, spec.about)) ++
      [("help", "Print this message or the help of the given subcommand(s)")]) ++
    "\nOptions:\n" ++ columns [("-h, --help", "Print help")]

/-- Help on a topic. -/
def help (topic : Option CommandSpec) : String :=
  match topic with
  | some spec => spec.help
  | none => generalHelp

end TxnPath.CommandLine
