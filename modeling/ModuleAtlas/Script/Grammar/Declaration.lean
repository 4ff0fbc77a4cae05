/-
ModuleAtlas/Script/Grammar/Declaration.lean

Declarations: variables, functions, classes, and the declarations of the typed
dialects.
-/
import ModuleAtlas.Script.Grammar.Expression

namespace ModuleAtlas.Script

open Script.Parser

namespace Grammar

/-! ### Variables -/

/-- One variable. -/
def declarator (g : Grammar) : Parser Tree := do
  let pos ← place
  let b ← g.binding
  if g.dialect.typed then
    let _ ← maybe (do mark "!"; need (← isNext ":"))
  let type ← if g.dialect.typed then maybe (g.typing true) else pure none
  let value ← maybe (g.initializer .last)
  return .declarator pos b type.toList value

/-- The last of the variables has a value. -/
def endsInValue (ds : List Tree) : Before :=
  match ds.getLast? with
  | some (.declarator _ _ _ (some _)) => .expression
  | _ => .other

/-- Variables behind the word that announces them. -/
def declarators (g : Grammar) : Parser (List Tree) := do
  let ds ← commas g.declarator
  g.semicolon (endsInValue ds)
  return ds

/-- A declaration of variables. -/
def variableDeclaration (g : Grammar) : Parser Tree := do
  match ← nextWord with
  | some "var" => keyword "var"; return .variableList false (← g.declarators)
  | some "const" => keyword "const"; return .variableList true (← g.declarators)
  | some "let" =>
    keyword "let"
    need (!(← g.endsHere .expression))
    match ← nextChar with
    | some c => need (isWordStart c || c == '\\' || c == '[' || c == '\x7b')
    | none => fail
    return .variableList false (← g.declarators)
  | some "using" =>
    need (!g.dialect.typed)
    keyword "using"
    need (!(← g.endsHere .expression))
    return .group (← g.declarators)
  | some "await" =>
    need (!g.dialect.typed)
    keyword "await"
    keyword "using"
    need (!(← g.endsHere .expression))
    return .group (← g.declarators)
  | _ => fail

/-! ### Functions and classes -/

/-- A function declaration; in a typed dialect its body may be missing. -/
def functionDeclaration (g : Grammar) : Parser Tree := do
  let pos ← place
  let _ ← maybe (do keyword "async"; need (!(← g.endsHere .expression)))
  keyword "function"
  let star ← maybe (mark "*")
  let name ← g.identifier
  let h ← g.head true
  let declared : Declared := ⟨name.text, .function, pos, some h.signature, []⟩
  if ← isNext "\x7b" then
    let body ← g.parse .block
    g.softSemicolon
    return .declaration declared (.name name.text :: h.parts ++ [body])
  else
    need (g.dialect.typed && star.isNone)
    g.semicolon .signature
    return .declaration declared (.name name.text :: h.parts)

/-- A class declaration behind its decorators, the word `abstract` included. -/
def classDeclaration (g : Grammar) (start : Option Position) (decorated : List Tree) :
    Parser Tree := do
  let pos ← place
  let abstract ← if g.dialect.typed then maybe (keyword "abstract") else pure none
  keyword "class"
  let c ← g.classRest
  match c.name with
  | none => fail
  | some name =>
    if abstract.isNone then g.softSemicolon
    return .declaration ⟨name.text, .classType, start.getD pos, some name.text, c.members⟩
      (decorated ++ c.parts)

/-- A class declaration with its decorators in front of it. -/
def decoratedClass (g : Grammar) : Parser Tree := do
  let pos ← place
  let decorated ← g.decorators
  g.classDeclaration (some pos) decorated

/-! ### Typed declarations -/

/-- An interface. -/
def interface (g : Grammar) : Parser Tree := do
  let pos ← place
  keyword "interface"
  let name ← word
  let generic ← maybe g.typeParameters
  let bases ← maybe (do keyword "extends"; commas g.namedType)
  let body ← g.objectType
  return .declaration ⟨name.text, .interface, pos, some name.text, []⟩
    (generic.getD [] ++ bases.getD [] ++ [body])

/-- An alias of a type. -/
def typeAlias (g : Grammar) : Parser Tree := do
  let pos ← place
  keyword "type"
  need (!(← g.endsHere .expression))
  let name ← word
  let generic ← maybe g.typeParameters
  mark "="
  let (t, text) ← withText (g.parse (.type true))
  g.semicolon .other
  return .declaration ⟨name.text, .typeAlias, pos, some (Signature.shorten text), []⟩
    (generic.getD [] ++ [t])

/-- A member of an enumeration. -/
def enumMember (g : Grammar) : Parser ClassItem := do
  let k ← g.key
  let value ← maybe (g.initializer .inner)
  let shown := value.isSome || k.form == .word || k.form == .string
  return (if shown then some { name := k.plain, kind := .constant, isStatic := true } else none,
    k.inside ++ value.toList)

/-- An enumeration. -/
def enumeration (g : Grammar) : Parser Tree := do
  let pos ← place
  let _ ← maybe (keyword "const")
  keyword "enum"
  let name ← word
  mark "\x7b"
  let items ← listed g.enumMember
  mark "\x7d"
  return .declaration ⟨name.text, .enumeration, pos, none, items.filterMap (·.1)⟩
    (.name name.text :: (items.map (·.2)).flatten)

/-- The name of a namespace, which a string may be, and the name as it is written. -/
def spaceName (g : Grammar) : Parser (List Tree × List Char) :=
  withText (either (do let _ ← lexeme stringLength?; return []) (do return [← g.dotted]))

/-- A namespace, or a module that is declared as one. -/
def space (g : Grammar) : Parser Tree := do
  let pos ← place
  let _ ← keywordOf ["namespace", "module"]
  need (!(← g.endsHere .expression))
  let (named, text) ← g.spaceName
  let body ← if ← isNext "\x7b" then maybe (g.parse .block) else pure none
  g.softSemicolon
  return .declaration ⟨String.ofList text, .unknown, pos, none, []⟩ (named ++ body.toList)

/-- An alias of a namespace. -/
def spaceAlias (g : Grammar) : Parser Tree := do
  keyword "import"
  let own ← word
  mark "="
  need ((← nextWord) != some "require")
  return .group [.name own.text, ← g.dotted]

/-- Something that is declared to exist elsewhere; `p` reads what is declared. -/
def ambientOf (g : Grammar) (p : Parser Tree) : Parser Tree := do
  keyword "declare"
  need (!(← g.endsHere .expression))
  [ do return .ambient (← p),
    do
      keyword "global"
      let body ← g.parse .block
      g.softSemicolon
      return .ambient body,
    do
      keyword "module"
      mark "."
      let _ ← word
      let t ← g.typing true
      g.semicolon .other
      return .ambient t ].foldr either fail

/-- A declaration that nothing is declared around. -/
def plainDeclaration (g : Grammar) : Parser Tree := do
  match ← nextWord with
  | none =>
    match ← nextChar with
    | some '@' => g.decoratedClass
    | _ => fail
  | some w =>
    match w with
    | "function" | "async" => g.functionDeclaration
    | "class" => g.classDeclaration none []
    | "var" | "let" | "using" | "await" => g.variableDeclaration
    | "const" =>
      if g.dialect.typed then either g.enumeration g.variableDeclaration
      else g.variableDeclaration
    | _ =>
      need g.dialect.typed
      match w with
      | "abstract" => g.classDeclaration none []
      | "interface" => g.interface
      | "enum" => g.enumeration
      | "type" => g.typeAlias
      | "namespace" | "module" => g.space
      | "import" => do
        let t ← g.spaceAlias
        g.semicolon .other
        return t
      | _ => fail

/-- A declaration that at most `fuel` are declared around. -/
def declarationUpTo (g : Grammar) : Nat → Parser Tree
  | 0 => fail
  | fuel + 1 => do
    if g.dialect.typed && (← nextWord) == some "declare" then g.ambientOf (g.declarationUpTo fuel)
    else g.plainDeclaration

/-- A declaration. -/
def declaration (g : Grammar) : Parser Tree := fun c => g.declarationUpTo (c.left + 1) c

end Grammar

end ModuleAtlas.Script
