import TxnPath.Decimal.Layout
import TxnPath.Json.Basic
import TxnPath.Text.Hexadecimal

/-!
# Writing JSON text

A value is written in two layouts: compact, without blanks, and indented, two blanks per level. Both
are functions from a value and the text that follows it to the text of both, so that laws about them
can speak of a value in the middle of a text.
-/

set_option autoImplicit false

namespace TxnPath.Json

open Text (hexDigit)

/-- A character as it stands within a text. -/
def escape (c : Char) : List Char :=
  if c = '"' then ['\\', '"']
  else if c = '\\' then ['\\', '\\']
  else if c = '\n' then ['\\', 'n']
  else if c = '\r' then ['\\', 'r']
  else if c = '\t' then ['\\', 't']
  else if c = '\x08' then ['\\', 'b']
  else if c = '\x0c' then ['\\', 'f']
  else if c.toNat < 0x20 then ['\\', 'u', '0', '0', hexDigit (c.toNat / 16), hexDigit (c.toNat % 16)]
  else [c]

/-- A text in quotes. -/
def writeText (s : String) (rest : List Char) : List Char :=
  '"' :: s.toList.foldr (fun c tail => escape c ++ tail) ('"' :: rest)

/-- A whole number. -/
def writeInt (n : Int) (rest : List Char) : List Char :=
  (toString n).toList ++ rest

/-- A double; a value that is no finite number is written as `null`. -/
def writeReal (x : Float) (rest : List Char) : List Char :=
  match Decimal.magnitude x with
  | .finite _ _ => (Decimal.documentLayout.text x).toList ++ rest
  | _ => "null".toList ++ rest

mutual

/-- A value without blanks. -/
def writeCompact : Json → List Char → List Char
  | .null, rest => "null".toList ++ rest
  | .bool true, rest => "true".toList ++ rest
  | .bool false, rest => "false".toList ++ rest
  | .int n, rest => writeInt n rest
  | .real x, rest => writeReal x rest
  | .str s, rest => writeText s rest
  | .arr items, rest => '[' :: writeItems items (']' :: rest)
  | .obj fields, rest => '\x7b' :: writeFields fields ('\x7d' :: rest)

/-- Values separated by commas. -/
def writeItems : List Json → List Char → List Char
  | [], rest => rest
  | j :: more, rest =>
    writeCompact j (match more with | [] => rest | _ :: _ => ',' :: writeItems more rest)

/-- Named values separated by commas. -/
def writeFields : List (String × Json) → List Char → List Char
  | [], rest => rest
  | (name, j) :: more, rest =>
    writeText name (':' :: writeCompact j
      (match more with | [] => rest | _ :: _ => ',' :: writeFields more rest))

end

/-- A line break and the blanks that indent a level. -/
def newline (level : Nat) (rest : List Char) : List Char :=
  '\n' :: (List.replicate (2 * level) ' ' ++ rest)

mutual

/-- A value with every element and field on a line of its own. -/
def writeIndented (level : Nat) : Json → List Char → List Char
  | .arr (j :: more), rest =>
    '[' :: writeItemLines (level + 1) (j :: more) (newline level (']' :: rest))
  | .obj (f :: more), rest =>
    '\x7b' :: writeFieldLines (level + 1) (f :: more) (newline level ('\x7d' :: rest))
  | .arr [], rest => '[' :: ']' :: rest
  | .obj [], rest => '\x7b' :: '\x7d' :: rest
  | .null, rest => "null".toList ++ rest
  | .bool true, rest => "true".toList ++ rest
  | .bool false, rest => "false".toList ++ rest
  | .int n, rest => writeInt n rest
  | .real x, rest => writeReal x rest
  | .str s, rest => writeText s rest

/-- Values, each on its line. -/
def writeItemLines (level : Nat) : List Json → List Char → List Char
  | [], rest => rest
  | j :: more, rest =>
    newline level (writeIndented level j
      (match more with | [] => rest | _ :: _ => ',' :: writeItemLines level more rest))

/-- Named values, each on its line. -/
def writeFieldLines (level : Nat) : List (String × Json) → List Char → List Char
  | [], rest => rest
  | (name, j) :: more, rest =>
    newline level (writeText name (':' :: ' ' :: writeIndented level j
      (match more with | [] => rest | _ :: _ => ',' :: writeFieldLines level more rest)))

end

/-- The compact text of a value. -/
def compact (j : Json) : String := String.ofList (writeCompact j [])

/-- The indented text of a value. -/
def indented (j : Json) : String := String.ofList (writeIndented 0 j [])

end TxnPath.Json
