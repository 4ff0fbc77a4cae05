/-
ModuleAtlas/Manifest/Config.lean

What a manifest says about its package.
-/
import ModuleAtlas.DataFile
import ModuleAtlas.Manifest.Targets

namespace ModuleAtlas

/-- The files through which a package is used. -/
structure EntryPoints where
  main : Option String := none
  module : Option String := none
  types : Option String := none
  /-- The targets of every subpath that has any. -/
  exports : List (String × List String) := []
  bin : List (String × String) := []
  /-- All of them, each once. -/
  all : List String := []
  /-- What is left out on purpose. -/
  excluded : List String := []
deriving DecidableEq, Repr, Inhabited

/-- The packages that a manifest declares. -/
structure Dependencies where
  production : List String := []
  development : List String := []
  peer : List String := []
deriving DecidableEq, Repr, Inhabited

/-- All packages that are declared. -/
def Dependencies.all (d : Dependencies) : List String := d.production ++ d.development ++ d.peer

/-- What a manifest says about its package. -/
structure PackageConfig where
  name : String
  version : String
  description : Option String := none
  entryPoints : EntryPoints := {}
  dependencies : Dependencies := {}
  scripts : List (String × String) := []
  workspaces : Option (List String) := none
  repository : Option String := none
  keywords : List String := []
deriving DecidableEq, Repr, Inhabited

/-- The sorts of values. -/
inductive Json.Shape where
  | null
  | flag
  | whole
  | decimal
  | text
  | list
  | record
deriving DecidableEq, Repr, Inhabited

/-- The sort of a value. -/
def Json.shape : Json → Shape
  | .null => .null
  | .bool _ => .flag
  | .number (.whole _) => .whole
  | .number _ => .decimal
  | .string _ => .text
  | .array _ => .list
  | .object _ => .record

/-- The word for a sort of values in messages. -/
def Json.Shape.word : Shape → String
  | .null => "NoneType"
  | .flag => "bool"
  | .whole => "int"
  | .decimal => "float"
  | .text => "str"
  | .list => "list"
  | .record => "dict"

/-- Why a project has no configuration. -/
inductive ManifestError where
  | notFolder (path : String)
  | unread (path : String) (fault : ReadFault)
  | notText (fault : Utf8.Fault)
  | malformed (path : String) (text : List Char) (fault : Json.Fault)
  /-- A whole number has more digits than are read. -/
  | tooLong (digits : Nat)
  | notObject (path : String)
  /-- The scripts are no object. -/
  | scripts (shape : Json.Shape)
  /-- The keywords cannot be listed. -/
  | keywords (shape : Json.Shape)
deriving DecidableEq, Repr, Inhabited

/-- The words for a project without a configuration. -/
def ManifestError.message : ManifestError → String
  | .notFolder path => "Not a directory: " ++ path
  | .unread path fault => "Cannot read " ++ path ++ ": " ++ fault.message
  | .notText fault => fault.message
  | .malformed path text fault => "Invalid JSON in " ++ path ++ ": " ++ fault.message text
  | .tooLong digits => (Json.Reason.tooLong digits).words
  | .notObject path => path ++ " must contain a JSON object"
  | .scripts shape => "'" ++ shape.word ++ "' object has no attribute 'items'"
  | .keywords shape => "'" ++ shape.word ++ "' object is not iterable"

namespace Manifest

/-- The fields of a manifest. -/
abbrev Fields := List (String × Json)

/-- The manifest at a path. -/
def load (t : FileTree) (path : String) : Except ManifestError Fields :=
  match t.readData path with
  | .ok (.object fields) => .ok fields
  | .ok _ => .error (.notObject path)
  | .error (.unread fault) => .error (.unread path fault)
  | .error (.notText fault) => .error (.notText fault)
  | .error (.malformed text fault) =>
    match fault.reason with
    | .tooLong digits => .error (.tooLong digits)
    | _ => .error (.malformed path text fault)

/-- The text of a field, if it has one that is not empty. -/
def text? (m : Fields) (name : String) : Option String := (Json.field m name).fullText?

/-! ### Entry points -/

/-- The programs of a package, each with its file. -/
def bin (m : Fields) : List (String × String) :=
  match Json.field m "bin" with
  | .string s => if s.isEmpty then [] else [((text? m "name").getD "default", s)]
  | .object fields => fields.filterMap fun (name, v) => v.fullText?.map fun path => (name, path)
  | _ => []

/-- The targets of the subpaths, and what is left out. -/
def subpathTargets : List (String × Json) → List (String × List String) × List String
  | [] => ([], [])
  | (path, value) :: rest =>
    let (more, left) := subpathTargets rest
    match value with
    | .null => (more, exclusion path :: left)
    | _ =>
      let r := reached value
      (if r.targets.isEmpty then more else (path, r.targets) :: more, r.excluded ++ left)

/-- The files through which a package is used. -/
def entryPoints (m : Fields) : EntryPoints :=
  let main := text? m "main"
  let module := text? m "module"
  let types := text? m "types"
  let typings := text? m "typings"
  let bin := bin m
  let (exports, excluded) := subpathTargets (subpaths (Json.field m "exports"))
  { main, module, types := types.or typings, exports, bin
    all := appendNew []
      (main.toList ++ module.toList ++ types.toList ++ typings.toList ++ bin.map Prod.snd
        ++ exports.flatMap Prod.snd)
    excluded := appendNew [] excluded }

/-! ### The rest -/

/-- The names of the fields of a field. -/
def fieldNames (m : Fields) (name : String) : List String :=
  match Json.field m name with
  | .object fields => fields.map Prod.fst
  | _ => []

/-- The packages that a manifest declares. -/
def dependencies (m : Fields) : Dependencies :=
  ⟨fieldNames m "dependencies", fieldNames m "devDependencies", fieldNames m "peerDependencies"⟩

/-- The patterns of the workspaces, if there are any. -/
def workspaces (m : Fields) : Option (List String) :=
  match Json.field m "workspaces" with
  | .array items => some (items.filterMap Json.text?)
  | .object fields =>
    match Json.field fields "packages" with
    | .array items => some (items.filterMap Json.text?)
    | _ => none
  | _ => none

/-- Where the package is kept. -/
def repository (m : Fields) : Option String :=
  match Json.field m "repository" with
  | .string s => if s.isEmpty then none else some s
  | .object fields => text? fields "url"
  | _ => none

/-- The scripts of a package. -/
def scripts (m : Fields) : Except ManifestError (List (String × String)) :=
  let value := Json.field m "scripts"
  match value with
  | .object fields => .ok (fields.filterMap fun (name, v) => v.text?.map fun s => (name, s))
  | _ => if value.isTruthy then .error (.scripts value.shape) else .ok []

/-- The keywords of a package.  A text counts as its characters and an object as its
names. -/
def keywords (m : Fields) : Except ManifestError (List String) :=
  let value := Json.field m "keywords"
  match value with
  | .array items => .ok (items.filterMap Json.text?)
  | .string s => .ok (s.toList.map String.singleton)
  | .object fields => .ok (fields.map Prod.fst)
  | _ => if value.isTruthy then .error (.keywords value.shape) else .ok []

/-- What a manifest in a folder of a given name says about its package. -/
def config (m : Fields) (folderName : String) : Except ManifestError PackageConfig := do
  let scripts ← scripts m
  let keywords ← keywords m
  return {
    name := (text? m "name").getD folderName
    version := (text? m "version").getD "0.0.0"
    description := text? m "description"
    entryPoints := entryPoints m
    dependencies := dependencies m
    scripts
    workspaces := workspaces m
    repository := repository m
    keywords }

end Manifest

end ModuleAtlas
