/-
ModuleAtlas/Options/Basic.lean

What an analysis can be told.
-/

namespace ModuleAtlas

/-- A layer of a project: the files that belong to it, by patterns that are tried
in order, and the layers they may depend on. -/
structure LayerRule where
  name : String
  description : String := ""
  paths : List String := []
  dependsOn : List String := []
deriving DecidableEq, Repr, Inhabited

/-- What an analysis can be told. -/
structure Options where
  /-- The suffixes of the files to read. -/
  extensions : List String := [".ts", ".tsx", ".js", ".jsx"]
  /-- Patterns of paths to leave out, as seen from the root. -/
  exclude : List String := ["**/node_modules/**", "**/dist/**", "**/build/**", "**/.git/**"]
  includeTests : Bool := false
  /-- Where the settings of the compiler are; in the root if it is not said. -/
  tsconfig : Option String := none
  /-- How many files are read at a time. -/
  workers : Nat := 8
  /-- Entries besides those of the manifest. -/
  entryPaths : List String := []
  /-- The layers; the usual ones if it is not said. -/
  layers : Option (List LayerRule) := none
deriving DecidableEq, Repr, Inhabited

end ModuleAtlas
