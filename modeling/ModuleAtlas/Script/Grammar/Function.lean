/-
ModuleAtlas/Script/Grammar/Function.lean

Functions as values: function expressions and arrow functions.
-/
import ModuleAtlas.Script.Grammar.Parameter

namespace ModuleAtlas.Script

open Script.Parser

namespace Grammar

/-- A function expression. -/
def functionExpression (g : Grammar) : Parser Tree := do
  let pos ← place
  let _ ← maybe (keyword "async")
  keyword "function"
  let _ ← maybe (mark "*")
  let name ← maybe g.identifier
  let h ← g.head false
  let body ← g.parse .block
  return .function pos h.signature
    ((name.toList.map fun w => .name w.text) ++ h.parts ++ [body])

/-- The body of an arrow function: a block, or an expression. -/
def arrowBody (g : Grammar) (x : Context) : Parser Tree := do
  if ← isNext "\x7b" then either (g.parse .block) (g.parse (.expression x))
  else g.parse (.expression x)

/-- The head of an arrow function in parentheses. -/
def arrowHead (g : Grammar) (x : Context) : Parser Head := do
  if x.bare then
    let (ps, text) ← withText g.parameters
    return ⟨text, none, ps⟩
  else g.head false

/-- An arrow function whose parameters stand in parentheses. -/
def arrowOfHead (g : Grammar) (x : Context) (pos : Position) : Parser Tree := do
  let h ← g.arrowHead x
  mark "=>"
  let body ← g.arrowBody x
  return .function pos h.signature (h.parts ++ [body])

/-- An arrow function of one plain parameter. -/
def arrowOfName (g : Grammar) (x : Context) (pos : Position) : Parser Tree := do
  let w ← g.identifier
  mark "=>"
  let body ← g.arrowBody x
  return .function pos (Signature.ofParts ('(' :: w.text.toList ++ [')']) none)
    [.name w.text, body]

/-- An arrow function. -/
def arrow (g : Grammar) (x : Context) : Parser Tree := do
  let pos ← place
  either
    (do
      keyword "async"
      need (!(x.ends && (← g.endsHere .expression)))
      either (g.arrowOfHead x pos) (g.arrowOfName x pos))
    (either (g.arrowOfHead x pos) (g.arrowOfName x pos))

end Grammar

end ModuleAtlas.Script
