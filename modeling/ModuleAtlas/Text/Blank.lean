/-
ModuleAtlas/Text/Blank.lean

Blank space and lines.  Blank space is every character that only separates;
a line ends at any of the line separators, and a carriage return with the line
feed after it ends one line, not two.
-/
import ModuleAtlas.Text.Range

namespace ModuleAtlas.Text

/-- Blank characters. -/
def blankRanges : Ranges :=
  [(9, 13), (28, 32), (133, 133), (160, 160), (5760, 5760), (8192, 8202), (8232, 8233),
    (8239, 8239), (8287, 8287), (12288, 12288)]

/-- The character is blank space. -/
def isBlank (c : Char) : Bool := blankRanges.has c

/-- Without the blanks in front. -/
def trimLeft (s : List Char) : List Char := s.dropWhile isBlank

/-- Without the blanks at the end. -/
def trimRight (s : List Char) : List Char := (s.reverse.dropWhile isBlank).reverse

/-- Without the blanks at either end. -/
def trim (s : List Char) : List Char := trimRight (trimLeft s)

/-- Add one character to the first of the pieces. -/
def consFirst (c : Char) : List (List Char) → List (List Char)
  | [] => [[c]]
  | w :: ws => (c :: w) :: ws

/-- The pieces between the places where the predicate holds; there is always one. -/
def splitBy (p : Char → Bool) : List Char → List (List Char)
  | [] => [[]]
  | c :: rest => if p c then [] :: splitBy p rest else consFirst c (splitBy p rest)

/-- The pieces between separators. -/
def split (sep : Char) (s : List Char) : List (List Char) := splitBy (· == sep) s

/-- The words between blanks. -/
def words (s : List Char) : List (List Char) := (splitBy isBlank s).filter (· ≠ [])

/-- Pieces joined by a separator. -/
def joinWith (sep : List Char) : List (List Char) → List Char
  | [] => []
  | [w] => w
  | w :: ws => w ++ sep ++ joinWith sep ws

/-- Every run of blanks becomes one space, and none is left at the ends. -/
def squeeze (s : List Char) : List Char := joinWith [' '] (words s)

/-- The character ends a line. -/
def endsLine (c : Char) : Bool :=
  c == '\n' || c == '\r' || c == '\x0b' || c == '\x0c' || c == '\x1c' || c == '\x1d'
    || c == '\x1e' || c == '\u0085' || c == '\u2028' || c == '\u2029'

/-- The lines of a text, without their ends.  A text that ends with a line end
has no further line after it. -/
def lines : List Char → List (List Char)
  | [] => []
  | '\r' :: '\n' :: rest => [] :: lines rest
  | c :: rest => if endsLine c then [] :: lines rest else consFirst c (lines rest)

/-- How many lines a text has when only line feeds and carriage returns, alone
or together, end one. -/
def countLines : List Char → Nat
  | [] => 0
  | ['\r', '\n'] => 1
  | [_] => 1
  | '\r' :: '\n' :: rest => 1 + countLines rest
  | c :: rest => if c == '\n' || c == '\r' then 1 + countLines rest else countLines rest

end ModuleAtlas.Text
