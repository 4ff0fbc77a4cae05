/-
ModuleAtlas/FileTree.lean

A file tree as a value, and what can be read from it by path.

A path is followed segment by segment from the top: an empty segment and a single
dot stay in a folder, two dots go back to the folder around it, and every other
segment goes to the entry of that name.  Nothing can be followed out of a file.

Names are texts of any length, and paths of any length are followed: that a machine
may refuse to look up a long one is said in `ModuleAtlas.Limits`.  There are no links
and no permissions, so whatever is in a tree can be read.
-/
import ModuleAtlas.Path
import ModuleAtlas.Text.Quoted
import ModuleAtlas.Utf8

namespace ModuleAtlas

/-- A file with its bytes, or a folder with its entries. -/
inductive FileTree where
  | file (bytes : List UInt8)
  | folder (entries : List (String × FileTree))
deriving Inhabited

/-- Why a file cannot be read. -/
inductive ReadFault where
  | missing (path : String)
  | inFile (path : String)
  | isFolder (path : String)
  /-- The path is too long to be looked up. -/
  | tooLong (path : String)
deriving DecidableEq, Repr, Inhabited

/-- The words for a file that cannot be read. -/
def ReadFault.message : ReadFault → String
  | .missing path => "[Errno 2] No such file or directory: " ++ Text.quoted path
  | .inFile path => "[Errno 20] Not a directory: " ++ Text.quoted path
  | .isFolder path => "[Errno 21] Is a directory: " ++ Text.quoted path
  | .tooLong path => "[Errno 36] File name too long: " ++ Text.quoted path

namespace FileTree

/-- The tree with nothing in it. -/
def empty : FileTree := .folder []

/-- It is a file. -/
def isFile : FileTree → Bool
  | .file _ => true
  | .folder _ => false

/-- The entries of a folder; a file has none. -/
def entries : FileTree → List (String × FileTree)
  | .file _ => []
  | .folder entries => entries

/-- The entry of a name. -/
def child? (t : FileTree) (name : String) : Option FileTree :=
  (t.entries.find? fun e => e.1 == name).map Prod.snd

/-! ### Following paths -/

/-- Why a path leads nowhere. -/
inductive Lost where
  | missing
  | inFile
deriving DecidableEq, Repr, Inhabited

/-- The tree at the end of a path from a tree, inside the folders around it. -/
def follow (around : List FileTree) (here : FileTree) : List (List Char) → Except Lost FileTree
  | [] => .ok here
  | part :: rest =>
    if here.isFile then .error .inFile
    else if part = [] ∨ part = Path.here then follow around here rest
    else if part = Path.back then
      match around with
      | [] => follow [] here rest
      | outer :: more => follow more outer rest
    else
      match here.child? (String.ofList part) with
      | some next => follow (here :: around) next rest
      | none => .error .missing

/-- What an absolute path leads to. -/
def find (t : FileTree) (path : String) : Except Lost FileTree :=
  follow [] t (Path.segments path.toList)

/-- What an absolute path leads to, if it leads anywhere. -/
def find? (t : FileTree) (path : String) : Option FileTree := (t.find path).toOption

/-- A file is at the path. -/
def hasFile (t : FileTree) (path : String) : Bool := ((t.find? path).map isFile).getD false

/-- A folder is at the path. -/
def hasFolder (t : FileTree) (path : String) : Bool :=
  ((t.find? path).map fun f => !f.isFile).getD false

/-- The bytes of the file at a path. -/
def read (t : FileTree) (path : String) : Except ReadFault (List UInt8) :=
  match t.find path with
  | .ok (.file bytes) => .ok bytes
  | .ok (.folder _) => .error (.isFolder path)
  | .error .missing => .error (.missing path)
  | .error .inFile => .error (.inFile path)

/-! ### Changing a tree -/

/-- The entries with one of a name put in, or replaced. -/
def putEntry (entries : List (String × FileTree)) (name : String) (t : FileTree) :
    List (String × FileTree) :=
  if entries.any fun e => e.1 == name then
    entries.map fun e => if e.1 == name then (name, t) else e
  else entries ++ [(name, t)]

/-- The tree with another one put in along a way of names; folders on the way are
made where there are none. -/
def put (new : FileTree) : List String → FileTree → FileTree
  | [], _ => new
  | name :: rest, t => .folder (putEntry t.entries name (put new rest ((t.child? name).getD empty)))

/-- The tree without what a way of names leads to. -/
def erase : List String → FileTree → FileTree
  | [], t => t
  | _, .file bytes => .file bytes
  | [name], .folder entries => .folder (entries.filter fun e => e.1 != name)
  | name :: rest, .folder entries =>
    match (FileTree.folder entries).child? name with
    | some t => .folder (putEntry entries name (erase rest t))
    | none => .folder entries

/-- The names along an absolute path. -/
def names (path : String) : List String := (Path.steps path).map String.ofList

/-- A file written at an absolute path. -/
def write (t : FileTree) (path : String) (bytes : List UInt8) : FileTree :=
  put (.file bytes) (names path) t

/-- A folder made at an absolute path, unless there is one. -/
def makeFolder (t : FileTree) (path : String) : FileTree :=
  if t.hasFolder path then t else put empty (names path) t

/-- The tree without what is at an absolute path. -/
def delete (t : FileTree) (path : String) : FileTree := erase (names path) t

end FileTree

end ModuleAtlas
