/-
ModuleAtlas/Script/Grammar/Literal.lean

Literals and the names of properties.
-/
import ModuleAtlas.Script.Parser

namespace ModuleAtlas.Script

open Script.Parser

namespace Grammar

/-- A string: the text between its quotes. -/
def quoted : Parser String := do
  let s ← lexeme stringLength?
  return String.ofList (s.drop 1).dropLast

/-- The substitutions of a template whose opening mark was read, each read by
the given parser. -/
def substitutions (p : Parser Tree) : Nat → Parser (List Tree)
  | 0 => fail
  | fuel + 1 => fun c =>
    match templateText 0 c.rest with
    | none => none
    | some k =>
      (do
        if ← markClosed then return []
        markHere "$\x7b"
        let t ← p
        mark "\x7d"
        return t :: (← substitutions p fuel) : Parser (List Tree)) (c.drop k)
where
  /-- The closing mark of a template. -/
  markClosed : Parser Bool := do return (← maybe (markHere "`")).isSome

/-- A template with the given parser for what it substitutes. -/
def templateOf (p : Parser Tree) : Parser Tree := fun c =>
  (do
    mark "`"
    return .group (← substitutions p (c.left + 1)) : Parser Tree) c

/-- A template of values. -/
def template (g : Grammar) : Parser Tree := templateOf (g.sequence .inner)

/-- The forms in which a property is named. -/
inductive KeyForm where
  | word
  | hidden
  | string
  | number
  | computed
deriving DecidableEq, Repr, Inhabited

/-- The name of a property. -/
structure Key where
  form : KeyForm
  /-- The name as it is written. -/
  text : String
  /-- What a computed name holds. -/
  inside : List Tree := []
deriving Inhabited

/-- The name with the quotes of a string taken off. -/
def Key.plain (k : Key) : String :=
  if k.form == .string then String.ofList (k.text.toList.drop 1).dropLast else k.text

/-- The name of a property. -/
def key (g : Grammar) : Parser Key := do
  let c ← nextChar
  match c with
  | none => fail
  | some c =>
    if c == '[' then
      let (t, s) ← withText (do mark "["; let t ← g.inner; mark "]"; return t)
      return ⟨.computed, String.ofList s, [t]⟩
    else if c == '"' || c == '\'' then
      return ⟨.string, String.ofList (← lexeme stringLength?), []⟩
    else if c == '#' then
      return ⟨.hidden, String.ofList (← lexeme privateLength?), []⟩
    else if c.isDigit || c == '.' then
      return ⟨.number, String.ofList (← lexeme numberLength?), []⟩
    else
      return ⟨.word, (← word).text, []⟩

end Grammar

end ModuleAtlas.Script
