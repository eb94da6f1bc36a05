import TxnPath.Json.Number

/-!
# Reading JSON text

`Json.parse?` accepts one value with blanks around it, nested at most 127 deep. The reader works on
a list of characters and hands back what follows the value it read; lists and objects read their
elements with the reader for one level less.
-/

set_option autoImplicit false

namespace TxnPath.Json

/-- The four blanks of JSON text. -/
def isBlank (c : Char) : Bool := c = ' ' || c = '\n' || c = '\t' || c = '\r'

/-- Skips blanks. -/
def skipBlanks (input : List Char) : List Char := input.dropWhile isBlank

/-- The value of a hexadecimal digit. -/
def hexValue? (c : Char) : Option Nat :=
  if '0' ≤ c ∧ c ≤ '9' then some (c.toNat - '0'.toNat)
  else if 'a' ≤ c ∧ c ≤ 'f' then some (c.toNat - 'a'.toNat + 10)
  else if 'A' ≤ c ∧ c ≤ 'F' then some (c.toNat - 'A'.toNat + 10)
  else none

/-- Four hexadecimal digits. -/
def readUnit? : List Char → Option (Nat × List Char)
  | a :: b :: c :: d :: rest => do
    let a ← hexValue? a
    let b ← hexValue? b
    let c ← hexValue? c
    let d ← hexValue? d
    pure (((a * 16 + b) * 16 + c) * 16 + d, rest)
  | _ => none

/-- The character written by a numbered escape. A character beyond 16 bits takes two of them, a
leading and a trailing surrogate; neither may stand alone. -/
def readNumbered? (input : List Char) : Option (Char × List Char) := do
  let (unit, rest) ← readUnit? input
  if unit < 0xD800 ∨ 0xDFFF < unit then
    pure (Char.ofNat unit, rest)
  else if 0xDC00 ≤ unit then
    none
  else
    match rest with
    | '\\' :: 'u' :: rest =>
      let (trailing, rest) ← readUnit? rest
      if 0xDC00 ≤ trailing ∧ trailing ≤ 0xDFFF then
        pure (Char.ofNat (0x10000 + (unit - 0xD800) * 0x400 + (trailing - 0xDC00)), rest)
      else
        none
    | _ => none

/-- The character written by what follows a backslash. -/
def readEscape? (input : List Char) : Option (Char × List Char) :=
  match input with
  | [] => none
  | c :: rest =>
    if c = '"' ∨ c = '\\' ∨ c = '/' then some (c, rest)
    else if c = 'b' then some ('\x08', rest)
    else if c = 'f' then some ('\x0c', rest)
    else if c = 'n' then some ('\n', rest)
    else if c = 'r' then some ('\r', rest)
    else if c = 't' then some ('\t', rest)
    else if c = 'u' then readNumbered? rest
    else none

/-- Reads a text up to its closing quote; `fuel` bounds the characters read. -/
def readText? : Nat → List Char → List Char → Option (String × List Char)
  | 0, _, _ => none
  | _ + 1, _, [] => none
  | fuel + 1, read, c :: rest =>
    if c = '"' then some (String.ofList read.reverse, rest)
    else if c = '\\' then (readEscape? rest).bind fun (e, rest) => readText? fuel (e :: read) rest
    else if c.toNat < 0x20 then none
    else readText? fuel (c :: read) rest

/-- Reads a text whose opening quote has been read. -/
def readQuoted? (input : List Char) : Option (String × List Char) := readText? (input.length + 1) [] input

/-- Reads one value with blanks around it. -/
def readSpaced? {α : Type} (read : List Char → Option (α × List Char)) (input : List Char) :
    Option (α × List Char) :=
  (read (skipBlanks input)).map fun (a, rest) => (a, skipBlanks rest)

/-- Reads elements separated by commas up to the closing bracket; `fuel` bounds their number. -/
def readItems? {α : Type} (close : Char) (read : List Char → Option (α × List Char)) :
    Nat → List α → List Char → Option (List α × List Char)
  | 0, _, _ => none
  | fuel + 1, before, input =>
    match readSpaced? read input with
    | some (a, c :: rest) =>
      if c = ',' then readItems? close read fuel (a :: before) rest
      else if c = close then some ((a :: before).reverse, rest)
      else none
    | _ => none

/-- Reads what stands behind an opening bracket. -/
def readBracketed? {α : Type} (close : Char) (read : List Char → Option (α × List Char))
    (input : List Char) : Option (List α × List Char) :=
  match skipBlanks input with
  | [] => none
  | c :: rest => if c = close then some ([], rest) else readItems? close read (input.length + 1) [] input

/-- Reads a name, a colon and a value. -/
def readField? (read : List Char → Option (Json × List Char)) (input : List Char) :
    Option ((String × Json) × List Char) :=
  match input with
  | '"' :: rest => do
    let (name, rest) ← readQuoted? rest
    match skipBlanks rest with
    | ':' :: rest => (read (skipBlanks rest)).map fun (j, rest) => ((name, j), rest)
    | _ => none
  | _ => none

/-- Reads a fixed word. -/
def readWord? (word : String) (j : Json) (input : List Char) : Option (Json × List Char) :=
  if word.toList.isPrefixOf input then some (j, input.drop word.length) else none

/-- Reads a value that is neither a list nor an object. -/
def readScalar? (input : List Char) : Option (Json × List Char) :=
  match input with
  | [] => none
  | c :: rest =>
    if c = '"' then (readQuoted? rest).map fun (s, rest) => (.str s, rest)
    else if c = 'n' then readWord? "null" .null input
    else if c = 't' then readWord? "true" (.bool true) input
    else if c = 'f' then readWord? "false" (.bool false) input
    else readNumber input

/-- Reads a value nested at most `depth` deep, from its first character on. -/
def readValue? : Nat → List Char → Option (Json × List Char)
  | 0, input => readScalar? input
  | depth + 1, input =>
    match input with
    | '[' :: rest => (readBracketed? ']' (readValue? depth) rest).map fun (js, rest) => (.arr js, rest)
    | '\x7b' :: rest =>
      (readBracketed? '\x7d' (readField? (readValue? depth)) rest).map fun (fs, rest) => (.obj fs, rest)
    | _ => readScalar? input

/-- How deep values may nest. -/
def depthLimit : Nat := 127

/-- Reads one value that makes up the whole text. -/
def parse? (text : String) : Option Json :=
  match readSpaced? (readValue? depthLimit) text.toList with
  | some (j, []) => some j
  | _ => none

end TxnPath.Json
