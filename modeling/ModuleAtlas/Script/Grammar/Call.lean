/-
ModuleAtlas/Script/Grammar/Call.lean

Arguments, and decorators, which may be calls.
-/
import ModuleAtlas.Script.Grammar.Literal

namespace ModuleAtlas.Script

open Script.Parser

namespace Grammar

/-- A value, or three dots and a value. -/
def spreadable (g : Grammar) : Parser Tree := do
  match ← maybe (mark "...") with
  | some _ => return .group [← g.inner]
  | none => g.inner

/-- Arguments in parentheses.  A comment in front of the first argument stands
among them. -/
def arguments (g : Grammar) : Parser (List Tree) := do
  mark "("
  let first ← remarks
  let all ← places g.spreadable
  mark ")"
  return first ++ all

/-- Type arguments in angle brackets. -/
def typeArguments (g : Grammar) : Parser (List Tree) := do
  mark "<"
  let all ← commas (g.parse (.type false))
  let _ ← maybe (mark ",")
  mark ">"
  return all

/-- A name with members behind it, as decorators have it. -/
def dotted (g : Grammar) : Parser Tree := do
  let w ← g.identifier
  let more ← many (do mark "."; word)
  return if more.isEmpty then .name w.text else .group [.name w.text]

/-- A decorator without its sign: a name, perhaps called. -/
def decoration (g : Grammar) : Parser Tree := do
  let pos ← place
  let f ← g.dotted
  let types ← if g.dialect.typed then maybe g.typeArguments else pure none
  match types with
  | some ts => return .call pos f ts (← g.arguments)
  | none =>
    match ← maybe g.arguments with
    | some args => return .call pos f [] args
    | none => return f

/-- A decorator. -/
def decorator (g : Grammar) : Parser Tree := do
  mark "@"
  if g.dialect.typed && (← isNext "(") then
    mark "("
    let t ← g.decoration
    mark ")"
    return .group [t]
  else g.decoration

/-- Decorators, if there are any. -/
def decorators (g : Grammar) : Parser (List Tree) := many g.decorator

end Grammar

end ModuleAtlas.Script
