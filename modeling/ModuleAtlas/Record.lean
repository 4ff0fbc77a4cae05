/-
ModuleAtlas/Record.lean

What one script says about its modules: the records of what it imports and
of what it exports.  A record holds nothing about other files, apart from the
`resolved` slot of an import, which stays empty until a file tree is at hand.
-/

namespace ModuleAtlas

/-- A place in a source text.  Lines and columns count from one, and a column
counts UTF-8 bytes. -/
structure Position where
  line : Nat
  column : Nat
deriving DecidableEq, Repr, Inhabited

/-- The place where every text starts. -/
def Position.start : Position := ⟨1, 1⟩

/-- Reading order: first by line, then by column. -/
def Position.le (a b : Position) : Bool :=
  a.line < b.line || (a.line == b.line && a.column ≤ b.column)

/-- What sort of thing an export stands for. -/
inductive Kind where
  | function
  | classType
  | interface
  | typeAlias
  | enumeration
  | constant
  | variable
  | defaultValue
  | unknown
deriving DecidableEq, Repr, Inhabited

/-- The word that stands for a kind in answers. -/
def Kind.label : Kind → String
  | .function => "function"
  | .classType => "class"
  | .interface => "interface"
  | .typeAlias => "type"
  | .enumeration => "enum"
  | .constant => "const"
  | .variable => "variable"
  | .defaultValue => "default"
  | .unknown => "unknown"

/-- Who may use a class member. -/
inductive Visibility where
  | everyone
  | subclasses
  | owner
deriving DecidableEq, Repr, Inhabited

/-- The word that stands for a visibility in answers. -/
def Visibility.label : Visibility → String
  | .everyone => "public"
  | .subclasses => "protected"
  | .owner => "private"

/-- A member of a class or an enumeration. -/
structure Member where
  name : String
  kind : Kind
  visibility : Visibility := .everyone
  isStatic : Bool := false
  signature : Option String := none
deriving DecidableEq, Repr, Inhabited

/-- The name under which a whole module is imported. -/
def wholeModule : String := "*"

/-- The name under which a module exports its main value. -/
def defaultName : String := "default"

/-- One import: a specifier as it is written, and the names taken from it. -/
structure Import where
  specifier : String
  names : List String := []
  resolved : Option String := none
  package : Option String := none
  typeOnly : Bool := false
  dynamic : Bool := false
  pos : Position := Position.start
deriving DecidableEq, Repr, Inhabited

/-- The import takes the whole module. -/
def Import.isNamespace (i : Import) : Bool := i.names.contains wholeModule

/-- How widely an export is meant to be used, by the tag of its comment. -/
inductive Release where
  | internalUse
  | alpha
  | beta
  | publicUse
deriving DecidableEq, Repr, Inhabited

/-- The tag of a release, which is also its word in answers. -/
def Release.label : Release → String
  | .internalUse => "internal"
  | .alpha => "alpha"
  | .beta => "beta"
  | .publicUse => "public"

/-- One export.  A re-export names the module it takes from in `source` and
the name it has there in `remote`. -/
structure Export where
  name : String
  kind : Kind := .unknown
  isDefault : Bool := false
  isReexport : Bool := false
  remote : Option String := none
  source : Option String := none
  isNamespace : Bool := false
  members : List Member := []
  doc : Option String := none
  signature : Option String := none
  release : Option Release := none
  pos : Position := Position.start
deriving DecidableEq, Repr, Inhabited

/-- The name to look for in the module that a re-export takes from. -/
def Export.lookupName (e : Export) : String :=
  match e.remote with
  | some o => if o = "" then e.name else o
  | none => e.name

/-- All that one script says about its modules. -/
structure Record where
  imports : List Import := []
  exports : List Export := []
  /-- The specifiers of its `export * from` statements. -/
  stars : List String := []
  lineCount : Nat := 0
deriving DecidableEq, Repr, Inhabited

end ModuleAtlas
