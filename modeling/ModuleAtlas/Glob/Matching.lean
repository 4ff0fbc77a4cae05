/-
ModuleAtlas/Glob/Matching.lean

Matching of paths against glob patterns.

A pattern is compiled to atoms, each of which takes a piece of the path; the path
matches if it can be cut into such pieces.  One line break may be left at the
end.
-/
import ModuleAtlas.Glob.Bracket
import ModuleAtlas.Path
import ModuleAtlas.Text.Case

namespace ModuleAtlas.Glob

/-- What a pattern asks of one piece of a path. -/
inductive Atom where
  /-- One given character. -/
  | exactly (c : Char)
  /-- One character that is no slash. -/
  | one
  /-- Characters that are no slashes. -/
  | run
  /-- Characters that are no line breaks. -/
  | tree
  /-- Nothing, or characters that end with a slash. -/
  | folders
  /-- Nothing, or characters that start with a slash. -/
  | below
  /-- One character of a set. -/
  | member (set : CharSet)
  /-- Characters of a set. -/
  | members (set : CharSet)
deriving DecidableEq, Repr, Inhabited

/-! ### Compilation -/

/-- The set of a bracket that was left open, which takes pieces until one of them
closes it, and the pieces behind those.  The signs are those read so far. -/
def openBracket (signs : List Sign) : List Piece → Option (Atom × List Piece)
  | [] => none
  | p :: rest =>
    if p.spelled.any Sign.closes then
      (charSet (signs ++ p.spelled)).map fun (set, left) =>
        (if left.isEmpty then .member set else .members set, rest)
    else openBracket (signs ++ p.spelled) rest

/-- The atoms of pieces, of which at most `fuel` are read. -/
def atomsUpTo : Nat → List Piece → Option (List Atom)
  | _, [] => some []
  | 0, _ :: _ => none
  | fuel + 1, .bracket body :: rest =>
    let signs := (spelledBody body).map (⟨·, false⟩ : Char → Sign)
    if spelledBody body = ['^'] then
      match openBracket (signs ++ [⟨']', false⟩]) rest with
      | some (a, more) => (atomsUpTo fuel more).map (a :: ·)
      | none => none
    else
      match charSet (signs ++ [⟨']', false⟩]) with
      | some (set, _) => (atomsUpTo fuel rest).map (.member set :: ·)
      | none => none
  | fuel + 1, .text c :: rest => (atomsUpTo fuel rest).map (.exactly c :: ·)
  | fuel + 1, .one :: rest => (atomsUpTo fuel rest).map (.one :: ·)
  | fuel + 1, .run :: rest => (atomsUpTo fuel rest).map (.run :: ·)
  | fuel + 1, .tree :: rest => (atomsUpTo fuel rest).map (.tree :: ·)
  | fuel + 1, .folders :: rest => (atomsUpTo fuel rest).map (.folders :: ·)
  | fuel + 1, .below :: rest => (atomsUpTo fuel rest).map (.below :: ·)

/-- The atoms of pieces. -/
def atoms (pieces : List Piece) : Option (List Atom) := atomsUpTo pieces.length pieces

/-- The atoms of a pattern, if it is a valid one.  The empty pattern is not. -/
def compile (pattern : String) : Option (List Atom) :=
  if pattern.isEmpty then none
  else (pieces (Path.slashed pattern).toList).bind atoms

/-! ### Matching -/

/-- What can be left of a text after any number of characters with a property. -/
def afterWhile (p : Char → Bool) : List Char → List (List Char)
  | [] => [[]]
  | c :: rest => (c :: rest) :: (if p c then afterWhile p rest else [])

/-- What can be left of a text after characters that end with a slash. -/
def afterSlash : List Char → List (List Char)
  | [] => []
  | c :: rest =>
    if c == '\n' then []
    else if c == '/' then rest :: afterSlash rest
    else afterSlash rest

/-- What can be left of a text after one character with a property. -/
def afterOne (p : Char → Bool) : List Char → List (List Char)
  | [] => []
  | c :: rest => if p c then [rest] else []

/-- What can be left of a text after an atom took its piece. -/
def Atom.rests : Atom → List Char → List (List Char)
  | .exactly c, s => afterOne (· == c) s
  | .one, s => afterOne (· != '/') s
  | .run, s => afterWhile (· != '/') s
  | .tree, s => afterWhile (· != '\n') s
  | .folders, s => s :: afterSlash s
  | .below, s => s :: (afterOne (· == '/') s).flatMap (afterWhile (· != '\n'))
  | .member set, s => afterOne set.has s
  | .members set, s => afterWhile set.has s

/-- The text can be cut into pieces for the atoms. -/
def fits : List Atom → List Char → Bool
  | [], s => s.isEmpty || s == ['\n']
  | a :: rest, s => (a.rests s).any (fits rest)

/-- The path matches the pattern. -/
def holds (pattern path : String) : Bool :=
  match compile pattern with
  | some atoms => fits atoms (Path.slashed path).toList
  | none => false

/-- The path matches the pattern, whatever the case of their letters. -/
def holdsInAnyCase (pattern path : String) : Bool := holds (Text.lower pattern) (Text.lower path)

/-- The path matches one of the patterns. -/
def anyHolds (patterns : List String) (path : String) : Bool := patterns.any (holds · path)

end ModuleAtlas.Glob
