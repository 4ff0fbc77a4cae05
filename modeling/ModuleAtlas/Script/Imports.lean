/-
ModuleAtlas/Script/Imports.lean

The imports of a script, and the local names that they bind.

Statements at the top level come first, calls anywhere in the script after them;
the records are then put in reading order.  Where two imports bind one name, the
later of them in that first order counts.
-/
import ModuleAtlas.Script.Tree
import ModuleAtlas.Specifier

namespace ModuleAtlas.Script

/-- A local name for something in another module. -/
structure Binding where
  binds : String
  /-- The name it has there. -/
  remote : String
  specifier : String
deriving DecidableEq, Repr, Inhabited

/-- Imports and what they bind, in the order in which they are found. -/
structure Found where
  imports : List Import := []
  bindings : List Binding := []
deriving DecidableEq, Repr, Inhabited

/-- First these, then those. -/
def Found.append (a b : Found) : Found := ⟨a.imports ++ b.imports, a.bindings ++ b.bindings⟩

/-- The last binding of a name. -/
def bindingOf? (bindings : List Binding) (name : String) : Option Binding :=
  bindings.reverse.find? fun b => b.binds == name

/-! ### Statements -/

/-- The name that one part of an import clause takes. -/
def ImportPart.taken : ImportPart → String
  | .main _ => defaultName
  | .whole _ => wholeModule
  | .named name _ _ => name

/-- What one part of an import clause binds. -/
def ImportPart.binding (specifier : String) : ImportPart → Binding
  | .main b => ⟨b, defaultName, specifier⟩
  | .whole b => ⟨b, wholeModule, specifier⟩
  | .named name b _ => ⟨b, name, specifier⟩

/-- The names that an export takes from another module. -/
def Taken.imported : Taken → List String
  | .names specifiers => specifiers.map ClauseName.name
  | _ => [wholeModule]

/-- What a statement at the top level imports. -/
def Found.ofStatement : Tree → Found
  | .importing pos typeOnly parts specifier _ =>
    ⟨[{ specifier, names := parts.map ImportPart.taken, typeOnly, pos }],
      parts.map (ImportPart.binding specifier)⟩
  | .exportFrom pos typeOnly taken specifier =>
    ⟨[{ specifier, names := taken.imported, typeOnly, pos }], []⟩
  | _ => {}

/-! ### Calls -/

/-- The function that a call uses to load a module, if it does: `true` for the one
that loads while the script runs. -/
def loaderOf? : Tree → Option Bool
  | .loader => some true
  | .name "require" => some false
  | _ => none

/-- The names that a pattern takes from what it is given, with their bindings. -/
def takenBy (specifier : String) : List Tree → List (String × Option Binding)
  | [] => []
  | .shorthand name :: rest => (name, some ⟨name, name, specifier⟩) :: takenBy specifier rest
  | .rename key _ (.name b) :: rest =>
    (key, some ⟨b, key, specifier⟩) :: takenBy specifier rest
  | .rename key _ _ :: rest => (key, none) :: takenBy specifier rest
  | _ :: rest => takenBy specifier rest

/-- What is taken from a module that a variable gets, by what the variable binds. -/
def takenInto (specifier : String) : Option Tree → List String × List Binding
  | some (.name b) => ([wholeModule], [⟨b, wholeModule, specifier⟩])
  | some (.fields properties) =>
    let taken := takenBy specifier properties
    if taken.isEmpty then ([wholeModule], [])
    else (taken.map Prod.fst, taken.filterMap Prod.snd)
  | _ => ([wholeModule], [])

/-- What a call imports.  The holder is what a variable binds that has the call as
its value. -/
def Found.ofCall (holder : Option Tree) (pos : Position) (callee : Tree) (args : List Tree) :
    Found :=
  match loaderOf? callee, args with
  | some true, .quoted specifier :: _ =>
    ⟨[{ specifier, names := [wholeModule], dynamic := true, pos }], []⟩
  | some false, .quoted specifier :: _ =>
    let (names, bindings) := takenInto specifier holder
    ⟨[{ specifier, names, pos }], bindings⟩
  | _, _ => {}

mutual

/-- What the calls in a tree import. -/
def Found.ofTree (holder : Option Tree) : Tree → Found
  | .call pos callee types args =>
    (Found.ofCall holder pos callee args).append
      ((Found.ofTree none callee).append ((Found.ofTrees types).append (Found.ofTrees args)))
  | .fields properties => Found.ofTrees properties
  | .rename _ inside value => (Found.ofTrees inside).append (Found.ofTree none value)
  | .defaulted target value => (Found.ofTree none target).append (Found.ofTree none value)
  | .reference parts => Found.ofTrees parts
  | .declarator _ target typing value =>
    (Found.ofTree none target).append ((Found.ofTrees typing).append (Found.ofValue target value))
  | .function _ _ parts => Found.ofTrees parts
  | .classValue _ parts => Found.ofTrees parts
  | .group parts => Found.ofTrees parts
  | .declaration _ parts => Found.ofTrees parts
  | .variableList _ declarators => Found.ofTrees declarators
  | .ambient inner => Found.ofTree none inner
  | .importing _ _ _ _ inside => Found.ofTrees inside
  | .exportDeclaration _ decorators declared =>
    (Found.ofTrees decorators).append (Found.ofTree none declared)
  | .exportValue _ decorators value =>
    (Found.ofTrees decorators).append (Found.ofTree none value)
  | .exportOther parts => Found.ofTrees parts
  | _ => {}

/-- What the calls in the value of a variable import. -/
def Found.ofValue (target : Tree) : Option Tree → Found
  | some value => Found.ofTree (some target) value
  | none => {}

/-- What the calls in some trees import. -/
def Found.ofTrees : List Tree → Found
  | [] => {}
  | t :: rest => (Found.ofTree none t).append (Found.ofTrees rest)

end

/-! ### Scripts -/

/-- Add the package to an import that points to no file. -/
def withPackage (i : Import) : Import :=
  if Specifier.isInternal i.specifier then i
  else { i with package := some (Specifier.package i.specifier) }

/-- The imports of a script in reading order, and what they bind. -/
def Found.ofScript (trees : List Tree) : Found :=
  let top : Found := trees.foldl (fun f t => Found.append f (Found.ofStatement t)) {}
  let all := top.append (Found.ofTrees trees)
  { all with imports := (all.imports.mergeSort fun a b => a.pos.le b.pos).map withPackage }

end ModuleAtlas.Script
