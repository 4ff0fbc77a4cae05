/-
ModuleAtlas/Glob/Bracket.lean

Brackets: sets of characters.

A bracket lists characters and ranges of them; a negation sign in front turns it
around.  Where the negation sign stands alone, its closing mark is read as the
first character of the set, and the set goes on through the spelled-out form of
the pieces behind it until one of them closes it.
-/
import ModuleAtlas.Glob.Pattern

namespace ModuleAtlas.Glob

/-- A range of characters, its ends included. -/
structure Span where
  low : Char
  high : Char
deriving DecidableEq, Repr, Inhabited

/-- A set of characters. -/
structure CharSet where
  negated : Bool
  spans : List Span
deriving DecidableEq, Repr, Inhabited

/-- The character is in the set. -/
def CharSet.has (s : CharSet) (c : Char) : Bool :=
  s.negated != s.spans.any fun r => r.low ≤ c && c ≤ r.high

/-- A sign inside a bracket: a character, and whether it can only stand for itself. -/
structure Sign where
  char : Char
  literal : Bool := false
deriving DecidableEq, Repr, Inhabited

/-- The sign closes a bracket. -/
def Sign.closes (s : Sign) : Bool := !s.literal && s.char == ']'

/-- The sign makes a range of its neighbours. -/
def Sign.spans (s : Sign) : Bool := !s.literal && s.char == '-'

/-- Characters that can only stand for themselves inside a bracket that was left
open. -/
def isSpecial (c : Char) : Bool :=
  "()[]\x7b\x7d?*+-|^$\\.&~# \t\n\r\x0b\x0c".toList.contains c

/-- Plain signs. -/
def plainSigns (s : String) : List Sign := s.toList.map fun c => ⟨c, false⟩

/-- The negation sign of a bracket has two forms. -/
def spelledBody : List Char → List Char
  | '!' :: rest => '^' :: rest
  | body => body

/-- The spelled-out form of a piece. -/
def Piece.spelled : Piece → List Sign
  | .text c => [⟨c, isSpecial c⟩]
  | .one => plainSigns "[^/]"
  | .run => plainSigns "[^/]*"
  | .tree => plainSigns ".*"
  | .folders => plainSigns "(?:.*/)?"
  | .below => plainSigns "(?:/.*)?"
  | .bracket body => ⟨'[', false⟩ :: (spelledBody body).map (⟨·, false⟩) ++ [⟨']', false⟩]

/-- The set that some signs list up to the one that closes it, and the signs behind
that.  `started` says that the set holds something already.  There is none if
nothing closes it or a range is reversed. -/
def spansUpTo : Nat → Bool → List Sign → Option (List Span × List Sign)
  | 0, _, _ => none
  | _ + 1, _, [] => none
  | fuel + 1, started, s :: rest =>
    if s.closes && started then some ([], rest)
    else
      match rest with
      | d :: e :: more =>
        if d.spans then
          if e.closes then some ([⟨s.char, s.char⟩, ⟨'-', '-'⟩], more)
          else if s.char ≤ e.char then
            (spansUpTo fuel true more).map fun (spans, left) => (⟨s.char, e.char⟩ :: spans, left)
          else none
        else
          (spansUpTo fuel true rest).map fun (spans, left) => (⟨s.char, s.char⟩ :: spans, left)
      | _ =>
        (spansUpTo fuel true rest).map fun (spans, left) => (⟨s.char, s.char⟩ :: spans, left)

/-- The set that some signs list, the negation sign in front included. -/
def charSet (signs : List Sign) : Option (CharSet × List Sign) :=
  match signs with
  | ⟨'^', false⟩ :: rest =>
    (spansUpTo (signs.length + 1) false rest).map fun (spans, left) => (⟨true, spans⟩, left)
  | _ => (spansUpTo (signs.length + 1) false signs).map fun (spans, left) => (⟨false, spans⟩, left)

end ModuleAtlas.Glob
