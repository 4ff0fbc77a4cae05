/-
ModuleAtlas/Script/Grammar/Parameter.lean

Parameters, type parameters and result types: the heads of functions.
-/
import ModuleAtlas.Script.Grammar.Call
import ModuleAtlas.Script.Grammar.Pattern
import ModuleAtlas.Script.Signature

namespace ModuleAtlas.Script

open Script.Parser

namespace Grammar

/-- The head of a function. -/
structure Head where
  parameters : List Char
  result : Option (List Char) := none
  parts : List Tree := []
deriving Inhabited

/-- The signature of a function with this head. -/
def Head.signature (h : Head) : String := Signature.ofParts h.parameters h.result

/-- One of the words, provided that a pattern comes behind it. -/
def patternModifier (words : List String) : Parser Unit := do
  let _ ← keywordOf words
  match ← nextChar with
  | some c => need (isWordStart c || c == '\\' || c == '\x7b' || c == '[' || c == '.')
  | none => fail

/-- A type behind a colon. -/
def typing (g : Grammar) (ends : Bool) : Parser Tree := do
  mark ":"
  g.parse (.type ends)

/-- One parameter. -/
def parameter (g : Grammar) : Parser Tree := do
  if g.dialect.typed then
    let decorated ← g.decorators
    let _ ← maybe (patternModifier ["public", "private", "protected"])
    let _ ← maybe (patternModifier ["override"])
    let _ ← maybe (patternModifier ["readonly"])
    let p ← either (do keyword "this"; return .group []) (g.parse .pattern)
    let _ ← maybe (mark "?")
    let type ← maybe (g.typing false)
    let value ← maybe (g.initializer .inner)
    return .group (decorated ++ p :: (type.toList ++ value.toList))
  else g.withDefault

/-- Parameters in parentheses. -/
def parameters (g : Grammar) : Parser (List Tree) := do
  mark "("
  let all ← listed g.parameter
  mark ")"
  return all

/-- One type parameter. -/
def typeParameter (g : Grammar) : Parser (List Tree) := do
  let _ ← maybe (do keyword "const"; need ((← nextWord).isSome))
  let _ ← word
  let bound ← maybe (do
    either (keyword "extends") (mark ":")
    g.parse (.type false))
  let given ← maybe (do mark "="; g.parse (.type false))
  return bound.toList ++ given.toList

/-- Type parameters in angle brackets. -/
def typeParameters (g : Grammar) : Parser (List Tree) := do
  mark "<"
  let all ← commas g.typeParameter
  let _ ← maybe (mark ",")
  mark ">"
  return all.flatten

/-- A type in the place of a result: a type, a statement that a name has a type,
or an assertion. -/
def resultType (g : Grammar) (ends : Bool) : Parser Tree := do
  if (← nextWord) == some "asserts" then
    keyword "asserts"
    let w ← word
    match ← maybe (do keyword "is"; g.parse (.type ends)) with
    | some t => return .group [.name w.text, t]
    | none => return if w.text == "this" then .group [] else .name w.text
  else
    either
      (do
        let w ← word
        keyword "is"
        let t ← g.parse (.type ends)
        return if w.text == "this" then t else .group [.name w.text, t])
      (g.parse (.type ends))

/-- The head of a function behind its name. -/
def head (g : Grammar) (ends : Bool) : Parser Head := do
  let generic ← if g.dialect.typed then maybe g.typeParameters else pure none
  let (ps, text) ← withText g.parameters
  let parts := generic.getD [] ++ ps
  let result ←
    if g.dialect.typed then maybe (withText (do mark ":"; g.resultType ends)) else pure none
  match result with
  | some (t, r) => return ⟨text, some r, parts ++ [t]⟩
  | none => return ⟨text, none, parts⟩

end Grammar

end ModuleAtlas.Script
