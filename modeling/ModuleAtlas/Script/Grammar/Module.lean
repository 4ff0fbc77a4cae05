/-
ModuleAtlas/Script/Grammar/Module.lean

Import and export statements.

An import names the modules it takes from right away; an export either declares
something, exports a value, takes names from another module, or lists names of
this one.
-/
import ModuleAtlas.Script.Grammar.Declaration

namespace ModuleAtlas.Script

open Script.Parser

namespace Grammar

/-! ### Imports -/

/-- A name in an import clause that stands for itself: any name. -/
def importedWord (g : Grammar) : Parser String := do return (← g.identifier).text

/-- A name in an import clause that is renamed: a name, a string, or the name of
the default export.  The word comes with it if it can name something. -/
def renamedWord (g : Grammar) : Parser (String × Option String) :=
  either (do return (← quoted, none)) (do
    let w ← word
    need (g.canName w.text || w.text == defaultName)
    return (w.text, if g.canName w.text then some w.text else none))

/-- One name in the braces of an import clause. -/
def importSpecifierPlain (g : Grammar) : Parser ImportPart :=
  either
    (do
      let (name, word) ← g.renamedWord
      keyword "as"
      return .named name (← g.importedWord) word)
    (do
      let name ← g.importedWord
      return .named name name)

/-- One name in the braces of an import clause, perhaps marked as a type.  The
word `type` is a name itself in front of a comma, a closing brace or `as`. -/
def importSpecifier (g : Grammar) : Parser ImportPart := do
  if g.dialect.typed then
    let _ ← maybe (do
      let w ← keywordOf ["type", "typeof"]
      if w == "type" then
        need (!(← isNext ",") && !(← isNext "\x7d") && (← nextWord) != some "as"))
  g.importSpecifierPlain

/-- The names in the braces of an import clause. -/
def namedImports (g : Grammar) : Parser (List ImportPart) := do
  mark "\x7b"
  let all ← loose g.importSpecifier
  mark "\x7d"
  return all

/-- The whole module under one name. -/
def wholeImport (g : Grammar) : Parser (List ImportPart) := do
  mark "*"
  keyword "as"
  return [.whole (← g.importedWord)]

/-- An import clause. -/
def importClause (g : Grammar) : Parser (List ImportPart) := do
  match ← nextChar with
  | some '*' => g.wholeImport
  | some '\x7b' => g.namedImports
  | _ =>
    let main ← g.importedWord
    match ← maybe (mark ",") with
    | some _ => return .main main :: (← either g.wholeImport g.namedImports)
    | none => return [.main main]

/-- The specifier behind `from`. -/
def fromClause : Parser String := do
  keyword "from"
  quoted

/-- The mark of an import of types: a word that is no name of the default export
itself. -/
def importMark (g : Grammar) : Parser String := do
  need g.dialect.typed
  let w ← keywordOf ["type", "typeof"]
  if w == "type" then need ((← nextWord) != some "from" && !(← isNext ","))
  return w

/-- A module under one name, in the form of an assignment. -/
def requiredImport : Parser (List ImportPart × String) := do
  let w ← word
  mark "="
  keyword "require"
  mark "("
  let specifier ← quoted
  mark ")"
  return ([.whole w.text], specifier)

/-- Attributes behind the specifier of an import. -/
def importAttributes (g : Grammar) : Parser (List Tree) := do
  if ← g.endsHere .other then return []
  else
    match ← maybe (do let _ ← keywordOf ["with", "assert"]; g.object) with
    | some t => return [t]
    | none => return []

/-- What an import statement takes, and from where. -/
def importSource (g : Grammar) : Parser (List ImportPart × String) :=
  [ do let s ← quoted; return ([], s),
    do
      let parts ← g.importClause
      return (parts, ← fromClause),
    do need g.dialect.typed; requiredImport ].foldr either fail

/-- An import statement. -/
def importStatement (g : Grammar) : Parser Tree := do
  let pos ← place
  either
    (do
      keyword "import"
      let marked ← maybe g.importMark
      let (parts, specifier) ← g.importSource
      let inside ← g.importAttributes
      g.semicolon .other
      return .importing pos (marked == some "type") parts specifier inside)
    (do
      need g.dialect.typed
      let t ← g.spaceAlias
      g.semicolon .other
      return t)

/-! ### Exports -/

/-- The name by which a module exports something. -/
def exportName (g : Grammar) : Parser (String × Option String) := g.renamedWord

/-- One name in the braces of an export clause, perhaps marked as a type. -/
def exportSpecifier (g : Grammar) : Parser ClauseName := do
  let pos ← place
  if g.dialect.typed then
    let _ ← maybe (do let _ ← keywordOf ["type", "typeof"])
  let (name, word) ← g.exportName
  let rename ← maybe (do keyword "as"; g.exportName)
  return ⟨pos, name, rename.map Prod.fst, word.toList ++ (rename.bind Prod.snd).toList⟩

/-- The names in the braces of an export clause. -/
def exportClause (g : Grammar) : Parser (List ClauseName) := do
  mark "\x7b"
  let all ← loose g.exportSpecifier
  mark "\x7d"
  return all

/-- The name of a whole module that is exported.  In the untyped dialect the word
`default` gives it none. -/
def wholeName (g : Grammar) : Parser (String × Option String) :=
  either (do return (← quoted, none)) (do
    let w ← word
    need (g.canName w.text || w.text == defaultName)
    return if g.canName w.text then (w.text, some w.text) else ("", none))

/-- An export clause, with or without a module it takes from. -/
def exportList (g : Grammar) (pos : Position) (typeOnly : Bool) : Parser Tree := do
  let names ← g.exportClause
  let source ← if ← g.endsHere .other then pure none else maybe fromClause
  g.semicolon .other
  match source with
  | some s => return .exportFrom pos typeOnly (.names names) s
  | none => return .exportNames names

/-- An export of everything in another module. -/
def exportStar (g : Grammar) (pos : Position) : Parser Tree := do
  mark "*"
  let name ← maybe (do keyword "as"; g.wholeName)
  let source ← fromClause
  g.semicolon .other
  match name with
  | some (n, word) => return .exportFrom pos false (.whole n word) source
  | none => return .exportFrom pos false .star source

/-- A value that ends a statement. -/
def valueEnd (g : Grammar) : Parser Tree := do
  let e ← g.parse (.expression .last)
  g.semicolon .expression
  return e

/-- The forms of an export that only the typed dialects have. -/
def typedExport (g : Grammar) (pos : Position) : Parser Tree := do
  need g.dialect.typed
  match ← nextChar with
  | some '=' =>
    mark "="
    return .exportOther [← g.valueEnd]
  | _ =>
    either
      (do keyword "type"; g.exportList pos true)
      (do
        keyword "as"
        keyword "namespace"
        let w ← word
        g.semicolon .other
        return .exportOther [.name w.text])

/-- Words that can only start a declaration. -/
def declaring : List String := ["const", "var", "enum", "interface", "abstract"]

/-- The default export behind its word. -/
def exportDefault (g : Grammar) (decorated : List Tree) : Parser Tree := do
  keyword "default"
  let _ ← remarks
  either
    (do return .exportDeclaration true decorated (← g.declaration))
    (do
      need (!declaring.contains ((← nextWord).getD ""))
      let pos ← place
      return .exportValue pos decorated (← g.valueEnd))

/-- An export of something declared, behind the decorators in front of it. -/
def exportDeclared (g : Grammar) (decorated : List Tree) : Parser Tree :=
  either (g.exportDefault decorated)
    (do return .exportDeclaration false decorated (← g.declaration))

/-- An export statement, unless the word `export` is a statement by itself. -/
def exportStatement (g : Grammar) : Parser Tree := do
  let pos ← place
  let decorated ← g.decorators
  keyword "export"
  need (!(← g.endsHere .expression))
  match ← nextChar with
  | some '*' => need decorated.isEmpty; g.exportStar pos
  | some '\x7b' => need decorated.isEmpty; g.exportList pos false
  | _ =>
    if decorated.isEmpty then either (g.exportDeclared []) (g.typedExport pos)
    else g.exportDeclared decorated

end Grammar

end ModuleAtlas.Script
