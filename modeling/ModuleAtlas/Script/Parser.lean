/-
ModuleAtlas/Script/Parser.lean

Parsers over a cursor, and the frame in which the grammar is written.

A parser either succeeds with a value and a later cursor or fails; a failed
alternative leaves the cursor where it was.  The grammar is a set of plain,
non-recursive functions: each gets a `Grammar`, whose `parse` stands for the
rules one nesting level further down.  The knot is tied once, in
`ModuleAtlas.Script.Program`.
-/
import ModuleAtlas.Script.Semicolon
import ModuleAtlas.Script.Tree

namespace ModuleAtlas.Script

/-- A parser. -/
abbrev Parser := StateT Cursor Option

/-- A word with the place where it stands. -/
structure Word where
  text : String
  pos : Position
deriving DecidableEq, Repr, Inhabited

/-- What an expression has behind it. -/
structure Context where
  /-- A semicolon may be left out behind the expression. -/
  ends : Bool
  /-- A colon behind closing parentheses belongs to an enclosing conditional, so
  it does not announce the result type of an arrow function. -/
  bare : Bool := false
deriving DecidableEq, Repr, Inhabited

/-- Inside brackets nothing ends a statement. -/
def Context.inner : Context := ⟨false, false⟩

/-- At the end of a statement a semicolon may be left out. -/
def Context.last : Context := ⟨true, false⟩

/-- The rules of the grammar that refer to each other in a circle. -/
inductive Rule where
  | statement
  | block
  | expression (context : Context)
  | operand (context : Context)
  | type (ends : Bool)
  | pattern
  | element
deriving DecidableEq, Repr, Inhabited

/-- The dialect at hand, and the rules for what is nested further down. -/
structure Grammar where
  dialect : Dialect
  parse : Rule → Parser Tree

namespace Parser

variable {α β : Type}

/-- The parser that always fails. -/
def fail : Parser α := fun _ => none

/-- Succeeds where the condition holds. -/
def need (b : Bool) : Parser Unit := if b then pure () else fail

/-- The parser's value, or `none` where it fails. -/
def maybe (p : Parser α) : Parser (Option α) := fun c =>
  match p c with
  | some (a, d) => some (some a, d)
  | none => some (none, c)

/-- The first parser, or the second where the first fails. -/
def either (p q : Parser α) : Parser α := fun c =>
  match p c with
  | some r => some r
  | none => q c

/-- What the parser would find, without going further. -/
def ahead (p : Parser α) : Parser (Option α) := fun c =>
  match p c with
  | some (a, _) => some (some a, c)
  | none => some (none, c)

/-- At most `fuel` values, as long as the parser succeeds. -/
def manyUpTo (p : Parser α) : Nat → Cursor → List α × Cursor
  | 0, c => ([], c)
  | fuel + 1, c =>
    match p c with
    | none => ([], c)
    | some (a, d) =>
      let (more, e) := manyUpTo p fuel d
      (a :: more, e)

/-- Values as long as the parser succeeds. -/
def many (p : Parser α) : Parser (List α) := fun c => some (manyUpTo p (c.left + 1) c)

/-- The text of a lexeme behind the spacing in front. -/
def lexeme (length? : List Char → Option Nat) : Parser (List Char) := fun c =>
  let d := c.afterSpacing
  match length? d.rest with
  | some k => some (d.rest.take k, d.drop k)
  | none => none

/-- Punctuation behind the spacing in front. -/
def mark (s : String) : Parser Unit := fun c =>
  let d := c.afterSpacing
  if d.startsWith s then some ((), d.drop s.length) else none

/-- Punctuation right here. -/
def markHere (s : String) : Parser Unit := fun c =>
  if c.startsWith s then some ((), c.drop s.length) else none

/-- The text behind the spacing in front, without going further. -/
def following : Parser (List Char) := fun c => some (c.afterSpacing.rest, c)

/-- The next character behind the spacing in front. -/
def nextChar : Parser (Option Char) := fun c => some (c.afterSpacing.rest.head?, c)

/-- The punctuation comes next. -/
def isNext (s : String) : Parser Bool := fun c => some (c.afterSpacing.startsWith s, c)

/-- The place where the next lexeme starts. -/
def place : Parser Position := fun c => some (c.afterSpacing.pos, c)

/-- The comments in front, those of markup included. -/
def remarks : Parser (List Tree) := fun c =>
  let (found, d) := c.comments (c.left + 1)
  some (found.map fun _ => .remark, d)

/-- No markup comment comes next.  Where a statement could end, its marks are operators. -/
def noMarkup : Parser Unit := fun c =>
  if (markupLength? c.afterSpacing.rest).isSome then none else some ((), c)

/-- A word of any kind. -/
def word : Parser Word := fun c =>
  let d := c.afterSpacing
  match wordLength? d.rest with
  | some k => some (⟨String.ofList (d.rest.take k), d.pos⟩, d.drop k)
  | none => none

/-- The next word, if a word comes next. -/
def nextWord : Parser (Option String) := do
  return (← ahead word).map Word.text

/-- One given word. -/
def keyword (s : String) : Parser Unit := do
  need ((← word).text == s)

/-- One of some given words. -/
def keywordOf (ss : List String) : Parser String := do
  let w ← word
  need (ss.contains w.text)
  return w.text

/-- Values with commas between them, one at least. -/
def commas (p : Parser α) : Parser (List α) := do
  let first ← p
  let more ← many (do mark ","; p)
  return first :: more

/-- Values with commas between them and perhaps one behind them. -/
def listed (p : Parser α) : Parser (List α) := do
  let all ← maybe (commas p)
  match all with
  | some all =>
    let _ ← maybe (mark ",")
    return all
  | none => return []

/-- Values with commas between them, and perhaps one comma more, which may also stand
alone. -/
def loose (p : Parser α) : Parser (List α) := do
  let all ← maybe (commas p)
  let _ ← maybe (mark ",")
  return all.getD []

/-- Places with commas between them, each of which may be empty. -/
def places (p : Parser α) : Parser (List α) := do
  let first ← maybe p
  let more ← many (do mark ","; maybe p)
  return (first :: more).filterMap id

/-- The text that a parser goes over, without the spacing in front. -/
def withText (p : Parser α) : Parser (α × List Char) := fun c =>
  let start := c.afterSpacing
  match p start with
  | some (a, d) => some ((a, start.textTo d), d)
  | none => none

end Parser

open Script.Parser

namespace Grammar

/-- Words that cannot name anything in the untyped dialect. -/
def reserved : List String :=
  ["break", "case", "catch", "class", "const", "continue", "debugger", "default", "delete",
    "do", "else", "export", "extends", "false", "finally", "for", "function", "if", "import",
    "in", "instanceof", "new", "null", "return", "super", "switch", "this", "throw", "true",
    "try", "typeof", "var", "void", "while", "with"]

/-- The word can name something.  The typed dialects take any word where no
keyword is expected. -/
def canName (g : Grammar) (w : String) : Bool := g.dialect.typed || !reserved.contains w

/-- A word that names something. -/
def identifier (g : Grammar) : Parser Word := do
  let w ← word
  need (g.canName w.text)
  return w

/-- An expression inside brackets. -/
def inner (g : Grammar) : Parser Tree := g.parse (.expression .inner)

/-- Expressions with commas between them. -/
def sequence (g : Grammar) (x : Context) : Parser Tree := do
  let first ← g.parse (.expression x)
  let more ← many (do mark ","; g.parse (.expression x))
  return if more.isEmpty then first else .group (first :: more)

/-- A semicolon is left out at the cursor. -/
def endsHere (g : Grammar) (before : Before) : Parser Bool := fun c =>
  some ((Semicolon.place? g.dialect before c).isSome, c)

/-- No semicolon is left out at the cursor, provided that one could be. -/
def goesOn (g : Grammar) (ends : Bool) (before : Before) : Parser Unit := do
  if ends then need (!(← g.endsHere before))

/-- A semicolon, written or left out. -/
def semicolon (g : Grammar) (before : Before) : Parser Unit := fun c =>
  match Semicolon.place? g.dialect before c with
  | some d => some ((), d)
  | none => mark ";" c

/-- A semicolon that may also be missing altogether. -/
def softSemicolon (g : Grammar) : Parser Unit := fun c =>
  match Semicolon.place? g.dialect .other c with
  | some d => some ((), d)
  | none => noMarkup c

/-- A value in parentheses, as conditions have it. -/
def condition (g : Grammar) : Parser Tree := do
  mark "("
  let e ← g.sequence .inner
  let typing ← if g.dialect.typed then maybe (do mark ":"; g.parse (.type false)) else pure none
  mark ")"
  return .group (e :: typing.toList)

/-- An initial value. -/
def initializer (g : Grammar) (x : Context) : Parser Tree := do
  mark "="
  g.parse (.expression x)

end Grammar

end ModuleAtlas.Script
