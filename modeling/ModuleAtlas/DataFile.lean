/-
ModuleAtlas/DataFile.lean

Files that hold a data value.
-/
import ModuleAtlas.Json.Reader
import ModuleAtlas.Source

namespace ModuleAtlas

/-- Why a file gives no data value. -/
inductive DataFault where
  | unread (fault : ReadFault)
  | notText (fault : Utf8.Fault)
  | malformed (text : List Char) (fault : Json.Fault)
deriving DecidableEq, Repr, Inhabited

/-- The words for a file that gives no data value. -/
def DataFault.message : DataFault → String
  | .unread f => f.message
  | .notText f => f.message
  | .malformed text f => f.message text

/-- Every line end becomes a line feed. -/
def plainLineEnds : List Char → List Char
  | [] => []
  | '\r' :: '\n' :: rest => '\n' :: plainLineEnds rest
  | '\r' :: rest => '\n' :: plainLineEnds rest
  | c :: rest => c :: plainLineEnds rest

/-- The data value in a file. -/
def FileTree.readData (t : FileTree) (path : String) : Except DataFault Json :=
  match t.readText path with
  | .error (.unread f) => .error (.unread f)
  | .error (.notText f) => .error (.notText f)
  | .ok text =>
    let text := plainLineEnds text
    (Json.parse text).mapError (.malformed text)

end ModuleAtlas
