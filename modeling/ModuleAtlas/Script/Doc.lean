/-
ModuleAtlas/Script/Doc.lean

Doc comments: the description in front of the first tag, and the release tag.
-/
import ModuleAtlas.Record
import ModuleAtlas.Text.Blank
import ModuleAtlas.Text.WordChar

namespace ModuleAtlas.Script

/-- What a doc comment says about the export behind it. -/
structure Doc where
  summary : Option String := none
  release : Option Release := none
deriving DecidableEq, Repr, Inhabited

namespace Doc

/-- The opening of a doc comment. -/
def opening : List Char := ['/', '*', '*']

/-- The end of a block comment. -/
def closing : List Char := ['*', '/']

/-- The text of a doc comment between its marks. -/
def body (raw : List Char) : List Char :=
  let inside := raw.drop opening.length
  if closing.isSuffixOf raw then inside.take (raw.length - opening.length - closing.length)
  else inside

/-- A line without the star in front of it, one blank behind the star included. -/
def withoutStar (line : List Char) : List Char :=
  match Text.trimLeft line with
  | '*' :: c :: rest => if Text.isBlank c then rest else c :: rest
  | ['*'] => []
  | _ => line

/-- The lines in front of the first tag. -/
def description (body : List Char) : List (List Char) :=
  ((Text.lines body).map withoutStar).takeWhile fun line =>
    (Text.trimLeft line).head? != some '@'

/-- The description on one line, if there is any. -/
def summaryOf (raw : List Char) : Option String :=
  let parts := ((description (body raw)).map Text.trim).filter (· ≠ [])
  if parts.isEmpty then none else some (String.ofList (Text.joinWith [' '] parts))

/-- The text holds the tag at its start, as a whole word. -/
def startsWithTag (tag : List Char) (s : List Char) : Bool :=
  tag.isPrefixOf s && !((s.drop tag.length).head?.map Text.isWord).getD false

/-- The text holds the tag somewhere. -/
def holdsTag (tag : List Char) : List Char → Bool
  | [] => false
  | c :: rest => startsWithTag tag (c :: rest) || holdsTag tag rest

/-- The releases, in the order in which a tag is looked for. -/
def releases : List Release := [.internalUse, .alpha, .beta, .publicUse]

/-- The release that a comment gives. -/
def releaseOf (raw : List Char) : Option Release :=
  releases.find? fun r => holdsTag ('@' :: r.label.toList) raw

/-- What a comment says, provided that it is a doc comment. -/
def ofComment (raw : List Char) : Doc :=
  if opening.isPrefixOf raw then ⟨summaryOf raw, releaseOf raw⟩ else {}

end Doc

end ModuleAtlas.Script
