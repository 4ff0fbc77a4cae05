/-
ModuleAtlas/Graph/Exclusion.lean

The patterns of the files that are left out: those of the options, those of tests
unless tests are wanted, and those of the compiler's settings.
-/
import ModuleAtlas.Graph.Warning
import ModuleAtlas.Options.Basic
import ModuleAtlas.Text.Search

namespace ModuleAtlas.Exclusion

/-- The patterns of tests. -/
def testPatterns : List String := ["**/*.test.*", "**/*.spec.*", "**/__tests__/**"]

/-- Where the compiler's settings are. -/
def settingsPath (root : String) (options : Options) : String :=
  match options.tsconfig with
  | none => Path.plain (Path.join root "tsconfig.json")
  | some path =>
    if path.isEmpty then Path.plain (Path.join root "tsconfig.json")
    else Path.plain (Path.join root path)

/-- The entries to be left out that a value of settings lists. -/
def listed : Json → List String
  | .object fields =>
    match Json.field fields "exclude" with
    | .array items => items.filterMap Json.fullText?
    | _ => []
  | _ => []

/-- The pattern of an entry of settings in a folder, as seen from the root. -/
def seenFrom (folder entry : String) : String :=
  let own := if Text.startsIn entry "./" then String.ofList (entry.toList.drop 2) else entry
  if folder = "" ∨ folder = "." then own else folder ++ "/" ++ own

/-- An entry that names a folder stands for all below it as well. -/
def withBelow (pattern : String) : List String :=
  if Text.endsIn pattern "/**" then [pattern]
  else [pattern, String.ofList (Path.trimSlashes pattern.toList) ++ "/**"]

/-- The patterns of the compiler's settings. -/
def ofSettings (t : FileTree) (root : String) (options : Options) :
    List String × List Warning :=
  let path := settingsPath root options
  if t.hasFile path then
    match t.readData path with
    | .ok settings =>
      let folder := Path.relative (Path.folder path) root
      ((listed settings).flatMap fun entry => withBelow (seenFrom folder entry), [])
    | .error fault => ([], [.settings path fault])
  else ([], [])

/-- The patterns of all that is left out. -/
def patterns (t : FileTree) (root : String) (options : Options) :
    List String × List Warning :=
  let (found, warnings) := ofSettings t root options
  let tests := if options.includeTests then [] else testPatterns
  (options.exclude ++ tests ++ found, warnings)

end ModuleAtlas.Exclusion
