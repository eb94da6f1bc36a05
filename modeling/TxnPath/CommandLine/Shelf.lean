import TxnPath.CommandLine.Run

/-!
# Files without a file system

Surroundings in which files are a table of texts by name. There are no directories.
-/

set_option autoImplicit false

namespace TxnPath.CommandLine

/-- Texts by the names of files. -/
abbrev Shelf := List (String × String)

namespace Shelf

/-- The reason why there is no file. -/
def noSuchFile : String := "No such file or directory (os error 2)"

/-- The text of a file. -/
def read (path : String) (s : Shelf) : Except String String :=
  match s.lookup path with
  | some text => .ok text
  | none => .error noSuchFile

/-- Replaces the text of a file. -/
def put (path text : String) (s : Shelf) : Shelf := (path, text) :: s.filter fun f => f.1 != path

/-- Surroundings with settings of the environment. -/
def surroundings (settings : List (String × String)) : Surroundings (StateM Shelf) where
  readFile path := do pure (read path (← get))
  writeFile path text :=
    if path.contains '/' then pure (.error noSuchFile)
    else do
      modify (put path text)
      pure (.ok ())
  setting? name := settings.lookup name

end Shelf

end TxnPath.CommandLine
