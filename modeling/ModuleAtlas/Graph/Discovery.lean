/-
ModuleAtlas/Graph/Discovery.lean

The source files of a project: in every folder first its own files by name, then
those of its folders by name.
-/
import ModuleAtlas.FileTree
import ModuleAtlas.Glob.Matching
import ModuleAtlas.Text.Search

namespace ModuleAtlas.Discovery

/-- Names of files and folders that are always left out. -/
def ignored : List String :=
  [".git", ".hg", ".svn", "node_modules", "dist", "build", "out", "coverage", ".next", ".nuxt",
    ".svelte-kit", ".turbo", ".cache", ".idea", ".vscode", "__pycache__", ".venv", "venv"]

/-- The path is left out for its place: its name is ignored, it is not below the
root, or a folder on the way is ignored. -/
def isSkipped (root path : String) : Bool :=
  ignored.contains (String.ofList (Path.lastPart path))
    || (match Path.below? root path with
      | none => true
      | some parts => parts.dropLast.any fun p => ignored.contains (String.ofList p))

/-- What is looked for. -/
structure Search where
  root : String
  extensions : List String
  exclude : List String
deriving DecidableEq, Repr, Inhabited

/-- The name ends with one of the extensions, whatever the case of its letters. -/
def Search.wants (s : Search) (name : String) : Bool :=
  s.extensions.any (Text.endsIn (Text.lower name))

/-- A file of a name at a path is looked for. -/
def Search.takes (s : Search) (path name : String) : Bool :=
  s.wants name && !ignored.contains name
    && !Glob.anyHolds s.exclude (Path.relative path s.root)

/-- The paths of the files looked for among the entries of a folder. -/
def filesIn (s : Search) (folder : String) (entries : List (String × FileTree)) : List String :=
  let names := (entries.filter fun e => e.2.isFile).map Prod.fst
  ((names.mergeSort fun a b => decide (a ≤ b)).filter fun name =>
    s.takes (Path.join folder name) name).map (Path.join folder)

mutual

/-- The files looked for in the tree at a path. -/
def filesBelow (s : Search) (path : String) : FileTree → List String
  | .file _ => []
  | .folder entries =>
    filesIn s path entries
      ++ ((foldersIn s path entries).mergeSort fun a b => decide (a.1 ≤ b.1)).flatMap Prod.snd

/-- The folders among the entries of a folder, each with the files looked for in it. -/
def foldersIn (s : Search) (path : String) :
    List (String × FileTree) → List (String × List String)
  | [] => []
  | e :: rest => folderOf s path e ++ foldersIn s path rest

/-- An entry with the files looked for in it, if it is a folder that counts. -/
def folderOf (s : Search) (path : String) : String × FileTree → List (String × List String)
  | (name, t) =>
    let found := filesBelow s (Path.join path name) t
    if t.isFile || ignored.contains name then [] else [(name, found)]

end

mutual

/-- How many folders are open at once while the tree is searched. -/
def depthBelow : FileTree → Nat
  | .file _ => 0
  | .folder entries => 1 + depthIn entries

/-- The same for the entries of a folder, one after the other. -/
def depthIn : List (String × FileTree) → Nat
  | [] => 0
  | e :: rest => max (depthOf e) (depthIn rest)

/-- The same for one entry, if it is a folder that counts. -/
def depthOf : String × FileTree → Nat
  | (name, t) =>
    let depth := depthBelow t
    if ignored.contains name then 0 else depth

end

/-- How many folders are open at once while a project is searched. -/
def depth (t : FileTree) (s : Search) : Nat := ((t.find? s.root).map depthBelow).getD 0

/-- The source files of a project. -/
def files (t : FileTree) (s : Search) : List String :=
  match t.find? s.root with
  | some tree => filesBelow s s.root tree
  | none => []

end ModuleAtlas.Discovery
