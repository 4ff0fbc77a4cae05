/-
ModuleAtlas/Script/Cursor.lean

A reading position in a script: what is left of the text and where that is.
-/
import ModuleAtlas.Record
import ModuleAtlas.Script.Lexeme

namespace ModuleAtlas.Script

/-- A reading position. -/
structure Cursor where
  rest : List Char
  /-- How many characters are left. -/
  left : Nat
  pos : Position
deriving Inhabited

namespace Cursor

/-- One character further.  Only a line feed starts a new line. -/
def step (c : Cursor) (x : Char) (rest : List Char) : Cursor :=
  { rest
    left := c.left - 1
    pos :=
      if x == '\n' then ⟨c.pos.line + 1, 1⟩ else ⟨c.pos.line, c.pos.column + x.utf8Size⟩ }

/-- So many characters further, or at the end of the text. -/
def drop (c : Cursor) : Nat → Cursor
  | 0 => c
  | n + 1 =>
    match c.rest with
    | [] => c
    | x :: rest => (c.step x rest).drop n

/-- The start of a text.  A byte-order mark in front is passed over, and its
bytes count as columns. -/
def ofText (s : List Char) : Cursor :=
  let c : Cursor := ⟨s, s.length, Position.start⟩
  if s.head? == some '\uFEFF' then c.drop 1 else c

/-- The text from one cursor to a later one. -/
def textTo (a b : Cursor) : List Char := a.rest.take (a.left - b.left)

/-- The cursor behind the spacing in front. -/
def afterSpacing (c : Cursor) : Cursor := c.drop (spacing c.rest)

/-- The cursor behind the next comment, if nothing but a gap is before it. -/
def afterComment? (c : Cursor) : Option Cursor :=
  let d := c.drop (gapLength c.rest)
  (commentLength? d.rest).map d.drop

/-- The length of the comment or markup comment behind a gap. -/
def remarkLength? (gap s : List Char) : Option Nat :=
  (commentLength? s).orElse fun _ => if gap.all isSpace then markupLength? s else none

/-- The comments in front, those of markup included, and the cursor behind them and their
gaps. -/
def comments : Nat → Cursor → List (List Char) × Cursor
  | 0, c => ([], c)
  | fuel + 1, c =>
    let d := c.drop (gapLength c.rest)
    match remarkLength? (c.textTo d) d.rest with
    | some k =>
      let (more, e) := comments fuel (d.drop k)
      (d.rest.take k :: more, e)
    | none => ([], d)

/-- The text starts with the given characters here. -/
def startsWith (c : Cursor) (s : String) : Bool := s.toList.isPrefixOf c.rest

end Cursor

end ModuleAtlas.Script
