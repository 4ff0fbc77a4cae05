/-
ModuleAtlas/Script/Grammar/Statement.lean

Statements and blocks.
-/
import ModuleAtlas.Script.Grammar.Module

namespace ModuleAtlas.Script

open Script.Parser

namespace Grammar

/-- A block, without what may follow its closing brace. -/
def block (g : Grammar) : Parser Tree := do
  mark "\x7b"
  let all ← many (g.parse .statement)
  let _ ← remarks
  mark "\x7d"
  return .group all

/-- An expression as a statement. -/
def expressionStatement (g : Grammar) : Parser Tree := do
  let e ← g.sequence .last
  g.semicolon .expression
  return .group [e]

/-! ### Branches and loops -/

/-- A condition and a statement that hangs on it. -/
def guarded (g : Grammar) : Parser (List Tree) := do
  let c ← g.condition
  return [c, ← g.parse .statement]

/-- A choice between two statements. -/
def ifStatement (g : Grammar) : Parser Tree := do
  keyword "if"
  let yes ← g.guarded
  let no ← maybe (do keyword "else"; g.parse .statement)
  return .group (yes ++ no.toList)

/-- What a loop over values binds. -/
def loopTarget (g : Grammar) : Parser (List Tree) :=
  either
    (do
      let kind ← keywordOf ["var", "let", "const", "using"]
      need (kind != "using" || !g.dialect.typed)
      let next ← nextWord
      need (kind != "let" || (next != some "of" && next != some "in"))
      let b ← g.binding
      let type ← if g.dialect.typed then maybe (g.typing false) else pure none
      let value ← if kind == "var" then maybe (g.initializer .inner) else pure none
      return b :: (type.toList ++ value.toList))
    (do
      either
        (do return [← either g.destructuring g.assignable])
        (do return [← g.condition]))

/-- The head of a loop over values. -/
def loopOver (g : Grammar) : Parser (List Tree) := do
  let bound ← g.loopTarget
  let _ ← keywordOf ["in", "of"]
  let e ← g.sequence .inner
  mark ")"
  return bound ++ [e]

/-- The first part of a counting loop. -/
def loopStart (g : Grammar) : Parser (List Tree) :=
  [ do mark ";"; return [],
    do
      let _ ← keywordOf ["var", "const", "let"]
      let ds ← commas (do
        let b ← g.binding
        let type ← if g.dialect.typed then maybe (g.typing false) else pure none
        let value ← maybe (g.initializer .inner)
        return .declarator Position.start b type.toList value)
      mark ";"
      return ds,
    do
      let e ← g.sequence .inner
      mark ";"
      return [e] ].foldr either fail

/-- The head of a counting loop. -/
def loopCount (g : Grammar) : Parser (List Tree) := do
  let first ← g.loopStart
  let test ← maybe (g.sequence .inner)
  mark ";"
  let step ← maybe (g.sequence .inner)
  mark ")"
  return first ++ test.toList ++ step.toList

/-- A loop with a head of its own. -/
def forStatement (g : Grammar) : Parser Tree := do
  keyword "for"
  let await ← maybe (keyword "await")
  mark "("
  let head ← either g.loopOver (do need await.isNone; g.loopCount)
  return .group (head ++ [← g.parse .statement])

/-- A loop that tests its condition behind its body. -/
def doStatement (g : Grammar) : Parser Tree := do
  keyword "do"
  let body ← g.parse .statement
  keyword "while"
  let c ← g.condition
  match ← maybe (g.semicolon .other) with
  | some _ => pure ()
  | none => g.softSemicolon
  return .group [body, c]

/-! ### Switches and handlers -/

/-- One case of a switch. -/
def switchCase (g : Grammar) : Parser Tree := do
  let _ ← remarks
  let test ← either
    (do keyword "case"; return [← g.sequence .inner])
    (do keyword "default"; return [])
  mark ":"
  let body ← many (do
    let _ ← remarks
    let next ← nextWord
    need (next != some "case" && next != some "default")
    g.parse .statement)
  return .group (test ++ body)

/-- A switch. -/
def switchStatement (g : Grammar) : Parser Tree := do
  keyword "switch"
  let c ← g.condition
  mark "\x7b"
  let cases ← many g.switchCase
  let _ ← remarks
  mark "\x7d"
  return .group (c :: cases)

/-- What handles a failure. -/
def handler (g : Grammar) : Parser (List Tree) := do
  keyword "catch"
  let bound ← maybe (do
    mark "("
    let b ← g.binding
    let type ← if g.dialect.typed then maybe (g.typing false) else pure none
    mark ")"
    return b :: type.toList)
  let body ← g.parse .block
  g.softSemicolon
  return bound.getD [] ++ [body]

/-- A block with handlers; both may be missing. -/
def tryStatement (g : Grammar) : Parser Tree := do
  keyword "try"
  let body ← g.parse .block
  g.softSemicolon
  let caught ← maybe g.handler
  let last ← maybe (do
    keyword "finally"
    let t ← g.parse .block
    g.softSemicolon
    return t)
  return .group (body :: (caught.getD [] ++ last.toList))

/-! ### Jumps -/

/-- The word of a jump and what may follow it on its line. -/
def jump (g : Grammar) (w : String) (p : Parser Tree) : Parser Tree := do
  keyword w
  if ← g.endsHere .other then
    g.semicolon .other
    return .group []
  else
    let t ← maybe (do noMarkup; p)
    g.semicolon (if t.isSome && w == "return" then .expression else .other)
    return .group t.toList

/-- A jump with a value that it needs. -/
def throwStatement (g : Grammar) : Parser Tree := do
  keyword "throw"
  need (!(← g.endsHere .other))
  g.expressionStatement

/-- A label and its statement. -/
def labelled (g : Grammar) : Parser Tree := do
  let _ ← g.identifier
  mark ":"
  return .group [← g.parse .statement]

/-! ### Statements -/

/-- A function without a name, or a class without one, is a value. -/
def isNamed (g : Grammar) (w : String) : Parser Bool := do
  return (← ahead (do
    if w == "async" then
      keyword "async"
      need (!(← g.endsHere .expression))
    if w == "class" then
      keyword "class"
      let _ ← g.className
    else
      keyword "function"
      let _ ← maybe (mark "*")
      let _ ← g.identifier)).isSome

/-- What follows the word `export` can only belong to an export, so the word does
not name a value. -/
def exportFollows (g : Grammar) : Parser Bool := do
  return (← ahead (do
    keyword "export"
    need (!(← g.endsHere .expression))
    let starts := (← isNext "*") || (← isNext "\x7b")
    let renames := (← ahead equals).isSome || (← nextWord) == some "as"
    need (starts || (g.dialect.typed && renames)))).isSome

/-- A namespace as a statement of its own, which declares nothing. -/
def spaceStatement (g : Grammar) : Parser Tree := do
  match ← g.space with
  | .declaration _ parts =>
    g.semicolon .expression
    return .group parts
  | t => return t

/-- A statement of the typed dialects that starts with the given word. -/
def typedStatement (g : Grammar) (w : String) : Parser Tree :=
  match w with
  | "interface" => g.interface
  | "enum" => g.enumeration
  | "abstract" => g.declaration
  | "type" => either g.typeAlias (either g.labelled g.expressionStatement)
  | "declare" => either g.declaration (either g.labelled g.expressionStatement)
  | "namespace" => either g.spaceStatement (either g.labelled g.expressionStatement)
  | "module" => either g.space (either g.labelled g.expressionStatement)
  | _ => either g.labelled g.expressionStatement

/-- A statement that starts with the given word. -/
def wordStatement (g : Grammar) (w : String) : Parser Tree := do
  match w with
  | "import" =>
    if (← ahead (do keyword "import"; either (mark "(") (mark "."))).isSome then
      g.expressionStatement
    else g.importStatement
  | "export" =>
    if ← g.exportFollows then g.exportStatement
    else either g.exportStatement g.expressionStatement
  | "var" => g.variableDeclaration
  | "const" =>
    if g.dialect.typed then either g.enumeration g.variableDeclaration
    else g.variableDeclaration
  | "let" => either g.variableDeclaration (either g.labelled g.expressionStatement)
  | "using" =>
    if g.dialect.typed then either g.labelled g.expressionStatement
    else either g.variableDeclaration (either g.labelled g.expressionStatement)
  | "await" => either g.variableDeclaration (either g.labelled g.expressionStatement)
  | "function" =>
    if ← g.isNamed w then g.functionDeclaration else g.expressionStatement
  | "async" =>
    if ← g.isNamed w then g.functionDeclaration
    else either g.labelled g.expressionStatement
  | "class" => if ← g.isNamed w then g.classDeclaration none [] else g.expressionStatement
  | "if" => g.ifStatement
  | "for" => g.forStatement
  | "while" => keyword "while"; return .group (← g.guarded)
  | "with" => keyword "with"; return .group (← g.guarded)
  | "do" => g.doStatement
  | "switch" => g.switchStatement
  | "try" => g.tryStatement
  | "return" => g.jump "return" (g.sequence .last)
  | "break" => g.jump "break" (do let _ ← g.identifier; return .group [])
  | "continue" => g.jump "continue" (do let _ ← g.identifier; return .group [])
  | "throw" => g.throwStatement
  | "debugger" => keyword "debugger"; g.semicolon .other; return .group []
  | _ =>
    if g.dialect.typed then g.typedStatement w
    else either g.labelled g.expressionStatement

/-- A statement. -/
def statement (g : Grammar) : Parser Tree := do
  let _ ← remarks
  match ← nextChar with
  | none => fail
  | some ';' => mark ";"; return .group []
  | some '\x7b' =>
    either (do let t ← g.block; g.softSemicolon; return t) g.expressionStatement
  | some '@' =>
    [g.exportStatement, g.decoratedClass, g.expressionStatement].foldr either fail
  | some _ =>
    match ← nextWord with
    | some w => g.wordStatement w
    | none => g.expressionStatement

end Grammar

end ModuleAtlas.Script
