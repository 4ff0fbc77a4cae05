/-
ModuleAtlas/Graph/Warning.lean

What an analysis goes on without, and says so.
-/
import ModuleAtlas.DataFile

namespace ModuleAtlas

/-- What an analysis goes on without. -/
inductive Warning where
  /-- A source that has no record. -/
  | skipped (relative : String) (error : SourceError)
  /-- How many sources have none. -/
  | leftOut (count : Nat)
  /-- The settings of the compiler. -/
  | settings (path : String) (fault : DataFault)
deriving DecidableEq, Repr, Inhabited

/-- The words for a warning. -/
def Warning.message : Warning → String
  | .skipped relative error => "⚠️ Skipping " ++ relative ++ ": " ++ error.message
  | .leftOut count => toString count ++ " file(s) could not be parsed and were excluded"
  | .settings path fault => "⚠️ Ignoring unreadable tsconfig " ++ path ++ ": " ++ fault.message

end ModuleAtlas
