/-
ModuleAtlas/Limits.lean

What a machine cannot do, whatever the program: look up a path that is too long, or
keep too many calls open at once.

Only calls of one walk are counted, not those that were open when it began and not
those that each of its calls makes in turn and closes again.
-/
import ModuleAtlas.FileTree

namespace ModuleAtlas

/-- How far a machine goes. -/
structure Limits where
  /-- How many bytes a name may have. -/
  name : Nat := 255
  /-- How many bytes a path may have. -/
  path : Nat := 4095
  /-- How many calls of one walk may be open at once. -/
  calls : Nat := 980
deriving DecidableEq, Repr, Inhabited

/-- How many bytes a text has. -/
def byteLength : List Char → Nat
  | [] => 0
  | c :: rest => c.utf8Size + byteLength rest

namespace FileTree

/-- The segment of a path is a name with more bytes than a name may have. -/
def isLongName (limits : Limits) (part : List Char) : Bool :=
  part ≠ [] && part ≠ Path.here && part ≠ Path.back && limits.name < byteLength part

/-- The segments lead to a folder from the top of a tree. -/
def leadsToFolder (t : FileTree) (parts : List (List Char)) : Bool :=
  match follow [] t parts with
  | .ok found => !found.isFile
  | .error _ => false

/-- One of the segments is a name that is too long, and those before it lead to the folder in which
it has to be looked up. -/
def meetsLongName (limits : Limits) (t : FileTree) (parts : List (List Char)) : Bool :=
  (List.range parts.length).any fun k =>
    isLongName limits (parts.getD k []) && t.leadsToFolder (parts.take k)

/-- An absolute path cannot be looked up because it is too long, or because it comes to a
name that is.  A path with a null character is not looked up at all. -/
def isTooLong (limits : Limits) (t : FileTree) (path : String) : Bool :=
  !path.toList.contains '\x00' && (limits.path < byteLength path.toList
    || meetsLongName limits t (Path.segments path.toList))

end FileTree

end ModuleAtlas
