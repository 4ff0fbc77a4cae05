/-
ModuleAtlas/Script/Semicolon.lean

Where a semicolon may be left out.  At a place where a statement could end, a
semicolon is read although none is written if the text ends, a closing brace
follows, or a line break follows that is not continued by what stands after it.

What continues a statement depends on the dialect, and on whether the statement
ends in an expression: there an opening bracket or parenthesis on the next line
goes on with it.
-/
import ModuleAtlas.Script.Cursor
import ModuleAtlas.Script.Dialect

namespace ModuleAtlas.Script

/-- What stands before the place in question. -/
inductive Before where
  /-- A complete expression, which an operator could continue. -/
  | expression
  /-- The head of a function, which a body could follow. -/
  | signature
  /-- Anything else. -/
  | other
deriving DecidableEq, Repr, Inhabited

namespace Semicolon

/-- A letter, as far as the words `in` and `instanceof` are concerned. -/
def isLetter (c : Char) : Bool := c.isAlpha || 128 ≤ c.toNat

/-- The text goes on with a letter. -/
def letterNext (s : List Char) : Bool := (s.head?.map isLetter).getD false

/-- A break of lines. -/
def isBreak (d : Dialect) (c : Char) : Bool :=
  c == '\n' || (!d.typed && (c == '\u2028' || c == '\u2029'))

/-- After the letter i: the word is not one of the operators `in` and `instanceof`. -/
def notOperator : List Char → Bool
  | 'n' :: rest =>
    letterNext rest && !("stanceof".toList.isPrefixOf rest && !letterNext (rest.drop 8))
  | _ => true

/-- After a line break and the spacing behind it: a new statement starts here. -/
def startsAnew (d : Dialect) (before : Before) : List Char → Bool
  | [] => true
  | c :: rest =>
    if "`,;*%>=<?^|&/:".toList.contains c then false
    else
      match c with
      | '.' => !d.typed && (rest.head?.map Char.isDigit).getD false
      | '(' => d.typed && before != .expression
      | '[' => d.typed && before != .expression
      | '\x7b' => !(d.typed && before == .signature)
      | '+' => rest.head? == some '+'
      | '-' => rest.head? == some '-'
      | '!' => rest.head? != some '='
      | 'i' => notOperator rest
      | _ => true

/-- How a block comment in front ends: the characters after it, and whether it
holds a line break. -/
def blockEnd (d : Dialect) (broken : Bool) : List Char → List Char × Bool
  | [] => ([], broken)
  | '*' :: '/' :: rest => (rest, broken)
  | c :: rest => blockEnd d (broken || isBreak d c) rest

/-- What follows a line comment. -/
def lineEnd (d : Dialect) (s : List Char) : List Char := s.dropWhile fun c => !isBreak d c

/-- Where a reader is that passes over spacing. -/
inductive Within where
  | space
  | line
  | block
deriving DecidableEq, Repr, Inhabited

/-- What follows the spacing behind a line break, or `none` if that is a slash that
starts no comment. -/
def afterBreak (d : Dialect) : Within → List Char → Option (List Char)
  | _, [] => some []
  | .space, '/' :: '/' :: rest => afterBreak d .line rest
  | .space, '/' :: '*' :: rest => afterBreak d .block rest
  | .space, '/' :: _ => none
  | .space, c :: rest => if isSpace c then afterBreak d .space rest else some (c :: rest)
  | .line, c :: rest => afterBreak d (if isBreak d c then .space else .line) rest
  | .block, '*' :: '/' :: rest => afterBreak d .space rest
  | .block, _ :: rest => afterBreak d .block rest

/-- A new statement starts behind a line break. -/
def anew (d : Dialect) (before : Before) (s : List Char) : Bool :=
  match afterBreak d .space s with
  | some rest => startsAnew d before rest
  | none => false

/-- A closing brace ends a statement.  Where types are possible, a brace with a
colon behind it closes a pattern instead, unless an expression was read. -/
def closes (d : Dialect) (before : Before) (rest : List Char) : Bool :=
  !d.typed || (rest.dropWhile isSpace).head? != some ':' || before == .expression

/-- Comments in front, read over in search of a line break.  The search stops
behind a block comment and tells whether that comment held a break; behind a line
comment it goes on, and what follows that counts as a new line.  A slash that
starts no comment gives `none`. -/
def skim (broken : Bool) : Nat → List Char → Option (List Char × Bool)
  | 0, _ => none
  | fuel + 1, s =>
    match s.dropWhile isSpace with
    | '/' :: '/' :: rest => skim broken fuel (lineEnd .javascript rest)
    | '/' :: '*' :: rest =>
      let (more, broken) := blockEnd .javascript broken rest
      if more.head? == some '/' then skim broken fuel more else some (more, broken)
    | '/' :: _ => none
    | rest => some (rest, true)

/-- In the untyped dialect comments are read over in search of a line break.  A
comment that itself holds a break counts as one, except behind an expression.  The
number bounds the characters that are read. -/
def searchUntyped (before : Before) : Nat → List Char → Bool
  | 0, _ => false
  | fuel + 1, s =>
    let go : List Char → Bool
      | [] => false
      | c :: rest =>
        if c == '\x7d' then true
        else if isBreak .javascript c then anew .javascript before rest
        else isSpace c && searchUntyped before fuel rest
    match s with
    | [] => true
    | '/' :: _ =>
      match skim false (fuel + 1) s with
      | none => false
      | some (more, fresh) =>
        (fresh && before != .expression && more.head? != some ',' && more.head? != some '=')
          || go more
    | _ => go s

/-- In the typed dialects a comment hides what stands behind it: the search goes
on only after the comment was read. -/
def searchTyped (d : Dialect) (before : Before) : List Char → Bool
  | [] => true
  | '\x7d' :: rest => closes d before rest
  | c :: rest =>
    if c == '\n' then anew d before rest
    else if isSpace c then searchTyped d before rest
    else false

/-- A semicolon is left out right here. -/
def leftOut (d : Dialect) (before : Before) (c : Cursor) : Bool :=
  if d.typed then searchTyped d before c.rest else searchUntyped before (c.left + 1) c.rest

/-- The cursor at which a semicolon is left out, reading over the comments in
front one by one. -/
def placeUpTo (d : Dialect) (before : Before) : Nat → Cursor → Option Cursor
  | 0, _ => none
  | fuel + 1, c =>
    if leftOut d before c then some c
    else
      match c.afterComment? with
      | some e => placeUpTo d before fuel e
      | none => none

/-- The cursor at which a semicolon is left out, if one is. -/
def place? (d : Dialect) (before : Before) (c : Cursor) : Option Cursor :=
  placeUpTo d before (c.left + 1) c

end Semicolon

end ModuleAtlas.Script
