/-
ModuleAtlas/Source.lean

Source files: from a path in a file tree to the record of the script there.
-/
import ModuleAtlas.FileTree
import ModuleAtlas.Script.Reading

namespace ModuleAtlas

/-- Why a file gives no bytes, or bytes that are no text. -/
inductive TextFault where
  | unread (fault : ReadFault)
  | notText (fault : Utf8.Fault)
deriving DecidableEq, Repr, Inhabited

/-- The words for a file that gives no text. -/
def TextFault.message : TextFault → String
  | .unread f => f.message
  | .notText f => f.message

/-- The text of a file. -/
def FileTree.readText (t : FileTree) (path : String) : Except TextFault (List Char) := do
  let bytes ← (t.read path).mapError .unread
  (Utf8.decode bytes).mapError .notText

/-- Why a source has no record. -/
inductive SourceError where
  | unsupported (path : String)
  | malformed (path : String)
  | unreadable (path : String) (cause : TextFault)
deriving DecidableEq, Repr, Inhabited

/-- The words for a source without a record. -/
def SourceError.message : SourceError → String
  | .unsupported path => "Unsupported file type: " ++ path
  | .malformed path => "Syntax error in " ++ path
  | .unreadable path cause => "Cannot read " ++ path ++ ": " ++ cause.message

namespace Source

/-- The dialect of a source. -/
def dialect (path : String) : Except SourceError Script.Dialect :=
  match Script.Dialect.ofPath? path with
  | some d => .ok d
  | none => .error (.unsupported path)

/-- The record of a text in a dialect. -/
def recordIn (path : String) (d : Script.Dialect) (text : List Char) : Except SourceError Record :=
  match Script.read? d text with
  | some r => .ok r
  | none => .error (.malformed path)

/-- The record of a text that would be at the path. -/
def recordOf (path : String) (text : List Char) : Except SourceError Record := do
  recordIn path (← dialect path) text

/-- The record of the source at a path. -/
def record (t : FileTree) (path : String) : Except SourceError Record := do
  let d ← dialect path
  let text ← (t.readText path).mapError (.unreadable path)
  recordIn path d text

/-- The statements of the source at a path, if it has a record. -/
def statements? (t : FileTree) (path : String) : Option (List Script.Tree) := do
  let d ← (dialect path).toOption
  let text ← (t.readText path).toOption
  let items ← Script.parse? d text
  return Script.statements items

end Source

end ModuleAtlas
