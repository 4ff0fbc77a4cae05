/-
ModuleAtlas/Script/Grammar/Pattern.lean

Patterns: what a declaration, a parameter or an assignment binds.
-/
import ModuleAtlas.Script.Grammar.Literal

namespace ModuleAtlas.Script

open Script.Parser

namespace Grammar

/-- A member access behind a value. -/
def memberSuffix (g : Grammar) : Parser (List Tree) :=
  either
    (do
      mark "."
      let _ ← either (lexeme privateLength?) (lexeme wordLength?)
      return [])
    (do
      mark "["
      let e ← g.sequence .inner
      mark "]"
      return [e])

/-- A name, or a member of a value. -/
def assignable (g : Grammar) : Parser Tree := do
  let w ← word
  let access ← many (do
    let inside ← g.memberSuffix
    let _ ← if g.dialect.typed then maybe (mark "!") else pure none
    return inside)
  if access.isEmpty then
    need (g.canName w.text && w.text != "this" && w.text != "super")
    return .name w.text
  else if w.text == "this" || w.text == "super" then
    return .reference access.flatten
  else
    need (g.canName w.text)
    return .reference (.name w.text :: access.flatten)

/-- A pattern, perhaps with a default value. -/
def withDefault (g : Grammar) : Parser Tree := do
  let p ← g.parse .pattern
  match ← maybe (g.initializer .inner) with
  | some e => return .defaulted p e
  | none => return p

/-- A property of an object pattern. -/
def patternProperty (g : Grammar) : Parser Tree := do
  if ← isNext "..." then
    g.parse .pattern
  else
    either
      (do
        let k ← g.key
        mark ":"
        return .rename k.text k.inside (← g.withDefault))
      (do
        let w ← g.identifier
        match ← maybe (g.initializer .inner) with
        | some e => return .defaulted (.shorthand w.text) e
        | none => return .shorthand w.text)

/-- An object or array pattern. -/
def destructuring (g : Grammar) : Parser Tree := do
  match ← nextChar with
  | some '\x7b' =>
    mark "\x7b"
    let all ← places g.patternProperty
    mark "\x7d"
    return .fields all
  | some '[' =>
    mark "["
    let all ← places g.withDefault
    mark "]"
    return .group all
  | _ => fail

/-- A pattern. -/
def pattern (g : Grammar) : Parser Tree := do
  match ← maybe (mark "...") with
  | some _ => return .group [← either g.destructuring g.assignable]
  | none => either g.destructuring g.assignable

/-- What a variable declaration binds: a name, or a pattern. -/
def binding (g : Grammar) : Parser Tree :=
  either g.destructuring (do return .name (← g.identifier).text)

end Grammar

end ModuleAtlas.Script
