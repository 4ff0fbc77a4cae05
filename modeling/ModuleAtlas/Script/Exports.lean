/-
ModuleAtlas/Script/Exports.lean

The exports of a script.
-/
import ModuleAtlas.Script.Doc
import ModuleAtlas.Script.Imports

namespace ModuleAtlas.Script

/-! ### Declarations -/

mutual

/-- The names that a pattern binds.  Names in default values count as well. -/
def boundNames : Tree → List String
  | .name text => [text]
  | .shorthand text => [text]
  | .call _ callee types args =>
    boundNames callee ++ boundNamesOf types ++ boundNamesOf args
  | .fields properties => boundNamesOf properties
  | .rename _ _ value => boundNames value
  | .defaulted target value => boundNames target ++ boundNames value
  | .reference parts => boundNamesOf parts
  | .declarator _ target typing value =>
    boundNames target ++ boundNamesOf typing ++ boundNamesOfValue value
  | .function _ _ parts => boundNamesOf parts
  | .classValue _ parts => boundNamesOf parts
  | .group parts => boundNamesOf parts
  | .declaration _ parts => boundNamesOf parts
  | .variableList _ declarators => boundNamesOf declarators
  | .ambient inner => boundNames inner
  | .importing _ _ parts _ inside => parts.flatMap ImportPart.words ++ boundNamesOf inside
  | .exportDeclaration _ decorators declared => boundNamesOf decorators ++ boundNames declared
  | .exportValue _ decorators value => boundNamesOf decorators ++ boundNames value
  | .exportFrom _ _ taken _ => taken.words
  | .exportNames specifiers => specifiers.flatMap ClauseName.words
  | .exportOther parts => boundNamesOf parts
  | _ => []

/-- The names in the value of a variable. -/
def boundNamesOfValue : Option Tree → List String
  | some value => boundNames value
  | none => []

/-- The names that some patterns bind. -/
def boundNamesOf : List Tree → List String
  | [] => []
  | t :: rest => boundNames t ++ boundNamesOf rest

end

/-- What one variable declares. -/
def declaredByVariable (constant : Bool) : Tree → List Declared
  | .declarator _ target _ (some (.function pos signature _)) =>
    (boundNames target).map fun name =>
      { name, kind := .function, pos, signature := some signature }
  | .declarator pos target _ _ =>
    (boundNames target).map fun name =>
      { name, kind := if constant then .constant else .variable, pos }
  | _ => []

/-- What a statement declares. -/
def declaredBy : Tree → List Declared
  | .declaration declared _ => [declared]
  | .variableList constant declarators => declarators.flatMap (declaredByVariable constant)
  | .ambient inner => declaredBy inner
  | _ => []

/-- The form declares something by itself. -/
def declares : Tree → Bool
  | .declaration _ _ => true
  | .variableList _ _ => true
  | .ambient _ => true
  | _ => false

/-- How many calls are open at once while it is found what a statement declares: one more for each
declaration around another. -/
def declaringCalls : Tree → Nat
  | .ambient inner => if declares inner then 1 + declaringCalls inner else 1
  | _ => 1

/-- The same for a statement at the top level, exported or not. -/
def declaringCallsAtTop : Tree → Nat
  | .exportDeclaration _ _ declared => declaringCalls declared
  | t => declaringCalls t

/-- What a statement at the top level declares, exported or not. -/
def declaredAtTop : Tree → List Declared
  | .exportDeclaration _ _ declared => declaredBy declared
  | t => declaredBy t

/-- What a script declares at its top level. -/
def localDeclarations (trees : List Tree) : List Declared := trees.flatMap declaredAtTop

/-! ### Exports -/

/-- What the names of a script stand for. -/
structure Scope where
  bindings : List Binding := []
  locals : List Declared := []
deriving DecidableEq, Repr, Inhabited

/-- The first local declaration of a name. -/
def Scope.local? (s : Scope) (name : String) : Option Declared :=
  s.locals.find? fun d => d.name == name

/-- The export with what a binding says about it. -/
def withBinding (e : Export) (b : Binding) : Export :=
  { e with
    isReexport := true
    remote := some b.remote
    source := some b.specifier
    isNamespace := b.remote == wholeModule }

/-- The export of one declared name. -/
def exportOfDeclared (isDefault : Bool) (d : Declared) : Export :=
  { name := if isDefault then defaultName else d.name
    kind := d.kind
    isDefault
    members := d.members
    signature := d.signature
    pos := d.pos }

/-- The default export of a value. -/
def exportOfValue (s : Scope) (pos : Position) (value : Tree) : Export :=
  let e : Export := { name := defaultName, kind := .defaultValue, isDefault := true, pos }
  match value with
  | .function _ signature _ => { e with kind := .function, signature := some signature }
  | .classValue members _ => { e with kind := .classType, members }
  | .name text =>
    match bindingOf? s.bindings text with
    | some b => withBinding e b
    | none =>
      match s.local? text with
      | some d => { e with kind := d.kind, members := d.members }
      | none => e
  | _ => e

/-- The export of one name in a clause of its own. -/
def exportOfName (s : Scope) (c : ClauseName) : Export :=
  let e : Export := { name := c.outer, isDefault := c.outer == defaultName, pos := c.pos }
  match bindingOf? s.bindings c.name with
  | some b => withBinding e b
  | none =>
    match s.local? c.name with
    | some d => { e with kind := d.kind, members := d.members, signature := d.signature }
    | none => e

/-- The export of one name that is taken from another module. -/
def exportOfTaken (specifier : String) (c : ClauseName) : Export :=
  { name := c.outer
    isDefault := c.outer == defaultName
    isReexport := true
    remote := some c.name
    source := some specifier
    pos := c.pos }

/-- The exports of what is taken from another module.  A star has none until the
other module is known. -/
def exportsOfTaken (pos : Position) (specifier : String) : Taken → List Export
  | .star => []
  | .whole name _ =>
    [{ name, isReexport := true, remote := some wholeModule, source := some specifier,
       isNamespace := true, pos }]
  | .names clause => clause.map (exportOfTaken specifier)

/-- The exports of a statement. -/
def exportsOf (s : Scope) : Tree → List Export
  | .exportDeclaration isDefault _ declared =>
    (declaredBy declared).map (exportOfDeclared isDefault)
  | .exportValue pos _ value => [exportOfValue s pos value]
  | .exportFrom pos _ taken specifier => exportsOfTaken pos specifier taken
  | .exportNames clause => clause.map (exportOfName s)
  | _ => []

/-- The specifier of a statement that exports everything in another module. -/
def starOf? : Tree → Option String
  | .exportFrom _ _ .star specifier => some specifier
  | _ => none

/-- A further head of a function that is exported already. -/
def isOverload (earlier : List Export) (e : Export) : Bool :=
  e.kind == .function && !e.isReexport
    && earlier.any fun x => x.name == e.name && x.kind == .function

/-- One more export, unless it is a further head of an earlier one. -/
def addExport (earlier : List Export) (e : Export) : List Export :=
  if isOverload earlier e then earlier else earlier ++ [e]

/-- The export with what the comment in front of it says. -/
def withDoc (d : Doc) (e : Export) : Export := { e with doc := d.summary, release := d.release }

/-- The exports of a script behind those found before, where the item in front
says the given. -/
def exportsFrom (s : Scope) : List Export → Doc → List Item → List Export
  | found, _, [] => found
  | found, _, .comment text :: rest => exportsFrom s found (Doc.ofComment text) rest
  | found, doc, .statement t :: rest =>
    exportsFrom s (((exportsOf s t).map (withDoc doc)).foldl addExport found) {} rest

end ModuleAtlas.Script
