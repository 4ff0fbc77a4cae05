/-
ModuleAtlas/Script/Reading.lean

From the text of a script to its record.
-/
import ModuleAtlas.Script.Exports
import ModuleAtlas.Script.Program

namespace ModuleAtlas.Script

/-- The statements among some items. -/
def statements : List Item → List Tree
  | [] => []
  | .statement t :: rest => t :: statements rest
  | .comment _ :: rest => statements rest

/-- What the items of a script say about its modules. -/
def recordOf (items : List Item) (lineCount : Nat) : Record :=
  let trees := statements items
  let found := Found.ofScript trees
  { imports := found.imports
    exports := exportsFrom ⟨found.bindings, localDeclarations trees⟩ [] {} items
    stars := trees.filterMap starOf?
    lineCount }

/-- What the text of a script says about its modules, or `none` if it is no
script of the dialect. -/
def read? (d : Dialect) (text : List Char) : Option Record :=
  (parse? d text).map fun items => recordOf items (Text.countLines text)

end ModuleAtlas.Script
