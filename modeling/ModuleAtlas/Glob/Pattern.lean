/-
ModuleAtlas/Glob/Pattern.lean

The pieces of a glob pattern, read from left to right.
-/

namespace ModuleAtlas.Glob

/-- One piece of a pattern. -/
inductive Piece where
  /-- A character that stands for itself. -/
  | text (c : Char)
  /-- `?`: one character, but no slash. -/
  | one
  /-- `*`: any characters, but no slash. -/
  | run
  /-- `**`: any characters. -/
  | tree
  /-- `**` and a slash: any number of folders. -/
  | folders
  /-- A slash and `**` at the end: nothing, or a slash and anything behind it. -/
  | below
  /-- A bracket with the text between its marks. -/
  | bracket (body : List Char)
deriving DecidableEq, Repr, Inhabited

/-- The text of a bracket up to its closing mark, and what follows. -/
def bracketBody : List Char → Option (List Char × List Char)
  | [] => none
  | ']' :: rest => some ([], rest)
  | c :: rest => (bracketBody rest).map fun (body, more) => (c :: body, more)

/-- The first piece of a non-empty pattern, and what follows.  There is none where
a bracket is empty or has no end. -/
def piece (c : Char) (rest : List Char) : Option (Piece × List Char) :=
  match c, rest with
  | '*', '*' :: '/' :: more => some (.folders, more)
  | '*', '*' :: more => some (.tree, more)
  | '*', more => some (.run, more)
  | '?', more => some (.one, more)
  | '[', more =>
    match bracketBody more with
    | some (b :: body, more) => some (.bracket (b :: body), more)
    | _ => none
  | '/', ['*', '*'] => some (.below, [])
  | c, more => some (.text c, more)

/-- The pieces of a pattern, of which at most `fuel` are read. -/
def piecesUpTo : Nat → List Char → Option (List Piece)
  | _, [] => some []
  | 0, _ :: _ => none
  | fuel + 1, c :: rest =>
    match piece c rest with
    | some (p, more) => (piecesUpTo fuel more).map (p :: ·)
    | none => none

/-- The pieces of a pattern.  Each takes one character at least, so their number
is bounded by the length of the pattern. -/
def pieces (s : List Char) : Option (List Piece) := piecesUpTo s.length s

end ModuleAtlas.Glob
