/-
ModuleAtlas/Script/Tree.lean

The syntax tree of a script, as far as its modules are concerned.  A form that
says nothing about modules by itself is a `group` of its parts in reading order;
the forms that do have a constructor of their own.

Words that name no value (property names, type names, labels) and punctuation
have no place in the tree.
-/
import ModuleAtlas.Record

namespace ModuleAtlas.Script

/-- A declared name with all that an export of it tells. -/
structure Declared where
  name : String
  kind : Kind
  pos : Position
  signature : Option String := none
  members : List Member := []
deriving DecidableEq, Repr, Inhabited

/-- One part of an import clause, with the local name it binds. -/
inductive ImportPart where
  /-- The default export. -/
  | main (binds : String)
  /-- The module as a whole. -/
  | whole (binds : String)
  /-- One export by its name, and the word in front of `as` that says it. -/
  | named (name : String) (binds : String) (word : Option String := none)
deriving DecidableEq, Repr, Inhabited

/-- The words of an import clause, in reading order. -/
def ImportPart.words : ImportPart → List String
  | .main b => [b]
  | .whole b => [b]
  | .named _ b word => word.toList ++ [b]

/-- One specifier of an export clause. -/
structure ClauseName where
  pos : Position
  name : String
  /-- The name it gets outside, where that differs. -/
  rename : Option String := none
  /-- The names of the two that are written as words. -/
  words : List String := []
deriving DecidableEq, Repr, Inhabited

/-- The name that a specifier has outside. -/
def ClauseName.outer (s : ClauseName) : String := s.rename.getD s.name

/-- What an export statement takes from another module. -/
inductive Taken where
  /-- Everything, name by name. -/
  | star
  /-- The module as a whole, under one name, and the word that says it. -/
  | whole (name : String) (word : Option String := none)
  /-- Some names. -/
  | names (specifiers : List ClauseName)
deriving DecidableEq, Repr, Inhabited

/-- The words of what is taken, in reading order. -/
def Taken.words : Taken → List String
  | .star => []
  | .whole _ word => word.toList
  | .names specifiers => specifiers.flatMap ClauseName.words

/-- A syntax tree. -/
inductive Tree where
  /-- A word that stands for a value. -/
  | name (text : String)
  /-- A property of an object pattern that binds its own name. -/
  | shorthand (text : String)
  /-- A string: the text between its quotes, escapes untouched. -/
  | quoted (text : String)
  /-- A comment among arguments. -/
  | remark
  /-- The word that calls a module by its specifier. -/
  | loader
  /-- A call: what is called, its type arguments and its arguments. -/
  | call (pos : Position) (callee : Tree) (types : List Tree) (arguments : List Tree)
  /-- An object pattern. -/
  | fields (properties : List Tree)
  /-- A property of an object pattern that renames: its key as written, what the
  key holds, and the pattern it goes to. -/
  | rename (key : String) (inside : List Tree) (value : Tree)
  /-- A pattern with a default value. -/
  | defaulted (target : Tree) (value : Tree)
  /-- A member of a value where a pattern could stand. -/
  | reference (parts : List Tree)
  /-- One variable of a declaration: what it binds, its type and its value. -/
  | declarator (pos : Position) (target : Tree) (typing : List Tree) (value : Option Tree)
  /-- A function as a value. -/
  | function (pos : Position) (signature : String) (parts : List Tree)
  /-- A class as a value. -/
  | classValue (members : List Member) (parts : List Tree)
  /-- Any other form. -/
  | group (parts : List Tree)
  /-- A declaration of one name. -/
  | declaration (declared : Declared) (parts : List Tree)
  /-- A declaration of variables, which are constant or not. -/
  | variableList (constant : Bool) (declarators : List Tree)
  /-- A declaration of something that exists elsewhere. -/
  | ambient (inner : Tree)
  /-- An import statement with a specifier. -/
  | importing (pos : Position) (typeOnly : Bool) (parts : List ImportPart) (specifier : String)
      (inside : List Tree)
  /-- An export of a declaration, behind its decorators. -/
  | exportDeclaration (isDefault : Bool) (decorators : List Tree) (declared : Tree)
  /-- An export of a value, which starts at the given place, behind its decorators. -/
  | exportValue (pos : Position) (decorators : List Tree) (value : Tree)
  /-- An export that takes from another module. -/
  | exportFrom (pos : Position) (typeOnly : Bool) (taken : Taken) (specifier : String)
  /-- An export of names of this module. -/
  | exportNames (specifiers : List ClauseName)
  /-- Any other export statement. -/
  | exportOther (parts : List Tree)
deriving Inhabited

/-- A script: statements and the comments between them. -/
inductive Item where
  | comment (text : List Char)
  | statement (tree : Tree)
deriving Inhabited

end ModuleAtlas.Script
