/-
ModuleAtlas/Manifest/Workspace.lean

Projects of more than one package.
-/
import ModuleAtlas.Manifest.Config

namespace ModuleAtlas.Manifest

/-- The name of the file that holds a manifest. -/
def fileName : String := "package.json"

/-- The manifest's own word says that the project has several packages. -/
def hasWorkspaces (m : Fields) : Bool := (Json.field m "workspaces").isTruthy

/-- The project in a folder has several packages; one without a manifest that can be
read has not. -/
def isMonorepo (t : FileTree) (root : String) : Except ManifestError Bool :=
  let path := Path.plain (Path.join root fileName)
  if t.hasFile path then
    match load t path with
    | .ok m => .ok (hasWorkspaces m)
    | .error (.notText fault) => .error (.notText fault)
    | .error (.tooLong digits) => .error (.tooLong digits)
    | .error _ => .ok false
  else .ok false

/-- The folder in which the packages of a pattern are: what stands before its star. -/
def workspaceFolder (root pattern : String) : String :=
  let base := Path.trimSlashes ((Path.slashed pattern).toList.takeWhile (· != '*'))
  if base.isEmpty then root else Path.plain (Path.join root (String.ofList base))

/-- The manifests of the packages right in a folder, by the names of their folders. -/
def manifestsIn (t : FileTree) (folder : String) : List String :=
  match t.find? folder with
  | some (.folder entries) =>
    (((entries.map Prod.fst).mergeSort fun a b => decide (a ≤ b)).map fun name =>
      Path.join (Path.join folder name) fileName).filter t.hasFile
  | _ => []

/-- The manifests of a project: its own and those of its workspaces. -/
def files (t : FileTree) (root : String) (workspaces : List String) : List String :=
  let own := Path.join root fileName
  let first := if t.hasFile own then [own] else []
  workspaces.foldl
    (fun found pattern => appendNew found (manifestsIn t (workspaceFolder root pattern))) first

/-- The paths that are looked up for the packages right in a folder. -/
def lookupsIn (t : FileTree) (folder : String) : List String :=
  match t.find? folder with
  | some (.folder entries) =>
    folder :: ((entries.map Prod.fst).mergeSort fun a b => decide (a ≤ b)).flatMap fun name =>
      let child := Path.join folder name
      if t.hasFolder child then [child, Path.join child fileName] else [child]
  | _ => [folder]

/-- The paths that are looked up for the manifests of a project, in their order. -/
def lookups (t : FileTree) (root : String) (workspaces : List String) : List String :=
  Path.join root fileName ::
    workspaces.flatMap fun pattern => lookupsIn t (workspaceFolder root pattern)

end ModuleAtlas.Manifest
