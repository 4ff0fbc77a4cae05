/-
ModuleAtlas/Target.lean

Build outputs and the sources they come from.  Both are brought to one key: the
path without its suffix and without the folder that sources or outputs lie in.
-/
import ModuleAtlas.Glob.Matching
import ModuleAtlas.Text.Search

namespace ModuleAtlas.Target

/-- Folders that hold sources or outputs. -/
def roots : List String := ["src", "dist", "build", "lib", "out", "esm", "cjs", "types"]

/-- Suffixes of type declarations. -/
def declarationSuffixes : List String := [".d.ts", ".d.mts", ".d.cts"]

/-- Without the steps in front that stay where they are. -/
def withoutDots : List Char → List Char
  | '.' :: '/' :: rest => withoutDots rest
  | s => s

/-- Without its suffix; that of a type declaration goes as a whole. -/
def withoutSuffix (s : String) : String :=
  match declarationSuffixes.find? (Text.endsIn s) with
  | some suffix => String.ofList (s.toList.take (s.toList.length - suffix.toList.length))
  | none => (Path.splitSuffix s).1

/-- Without the folder in front that holds sources or outputs. -/
def withoutRoot : List (List Char) → List (List Char)
  | first :: second :: rest =>
    if roots.contains (String.ofList first) then second :: rest else first :: second :: rest
  | parts => parts

/-- What a source has in common with the outputs built from it. -/
def key (path : String) : String :=
  let rel := withoutDots (Path.slashed path).toList
  let stem := withoutSuffix (String.ofList rel)
  String.ofList (Path.ofSegments (withoutRoot (Path.segments stem.toList)))

/-- Every star is doubled. -/
def doubled (s : List Char) : List Char := s.flatMap fun c => if c == '*' then ['*', '*'] else [c]

/-- The target of an export stands for the source at a path.  A star in the target
stands for anything. -/
def isFor (target path : String) : Bool :=
  let wanted := key target
  let given := key path
  if wanted.toList.contains '*' then Glob.holds (String.ofList (doubled wanted.toList)) given
  else wanted == given

end ModuleAtlas.Target
