import TxnPath.Archive.Load
import TxnPath.Digest
import TxnPath.GraphStore
import TxnPath.Json.Printer
import TxnPath.Json.Reader

/-!
# Archives of graphs

An archive is the document that holds the graphs of a site, with the digest of their compact JSON
text. It is verified before graphs are loaded from it: version and digest must be right.
-/

set_option autoImplicit false

namespace TxnPath

/-- A document of graphs. -/
structure Archive where
  /-- The version of its format. -/
  version : Nat
  /-- The graphs. -/
  graphs : List GraphRecord
  /-- The digest that it claims to have, in hexadecimal digits. -/
  digest : String
  deriving DecidableEq

namespace Archive

/-- The version that is written and read. -/
def currentVersion : Nat := 1

/-- The text that the digest is taken of. -/
def digestedText (graphs : List GraphRecord) : String := (Json.list GraphRecord.toJson graphs).compact

/-- The digest of graphs, in hexadecimal digits. -/
def digestOf (graphs : List GraphRecord) : String := (Digest.ofText (digestedText graphs)).hex

/-- The archive of graphs. -/
def ofRecords (graphs : List GraphRecord) : Archive := ⟨currentVersion, graphs, digestOf graphs⟩

/-- Checks the version, then the digest. -/
def verify (a : Archive) : Except Error Unit :=
  if a.version ≠ currentVersion then .error (.document (.unknownVersion a.version))
  else if digestOf a.graphs ≠ a.digest then .error (.checksum a.digest (digestOf a.graphs))
  else .ok ()

/-- An archive as JSON. -/
def toJson (a : Archive) : Json :=
  .obj [("version", .nat a.version), ("graphs", .list GraphRecord.toJson a.graphs),
    ("digest", .str a.digest)]

/-- Reads an archive. -/
def ofJson? (j : Json) : Option Archive := do
  let r ← j.record? ["version", "graphs", "digest"]
  pure
    { version := ← r.required "version" Json.halfWord?
      graphs := ← r.required "graphs" (Json.list? GraphRecord.ofJson?)
      digest := ← r.required "digest" Json.str? }

/-- The text of an archive. -/
def text (a : Archive) : String := a.toJson.indented

/-- Reads the text of an archive. -/
def ofText (s : String) : Except Error Archive :=
  match (Json.parse? s).bind ofJson? with
  | some a => .ok a
  | none => .error (.document .unreadable)

section Graphs

variable {R : Type} [Scalar R]

/-- Loads graphs up to the first that is refused. -/
def loadGraphs (c : Catalog) : List GraphRecord → Except Fault (Except Error (List (Graph R)))
  | [] => .ok (.ok [])
  | r :: rest =>
    match r.load c with
    | .error f => .error f
    | .ok (.error e) => .ok (.error e)
    | .ok (.ok g) =>
      match loadGraphs c rest with
      | .error f => .error f
      | .ok (.error e) => .ok (.error e)
      | .ok (.ok gs) => .ok (.ok (g :: gs))

/-- The graphs of a verified archive. -/
def toGraphs (a : Archive) (c : Catalog) : Except Fault (Except Error (List (Graph R))) :=
  match a.verify with
  | .error e => .ok (.error e)
  | .ok () => loadGraphs c a.graphs

/-- The store of a verified archive; of two graphs of one key the later stays. -/
def toStore (a : Archive) (c : Catalog) : Except Fault (Except Error (GraphStore R)) :=
  match a.toGraphs c with
  | .error f => .error f
  | .ok (.error e) => .ok (.error e)
  | .ok (.ok gs) => .ok (.ok (gs.foldl GraphStore.insert ∅))

end Graphs

end Archive

/-- The archive of a store. -/
def GraphStore.toArchive {R : Type} (s : GraphStore R) (c : Catalog) : Except Error Archive :=
  (s.toList.mapM fun (e : GraphKey × Graph R) => e.2.toRecord c).map Archive.ofRecords

end TxnPath
