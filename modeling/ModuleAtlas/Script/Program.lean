/-
ModuleAtlas/Script/Program.lean

Whole scripts.

The rules of the grammar refer to each other in a circle, so the circle is
closed with a bound on the depth.  Between two steps down that read nothing there
are only a few rules, so the bound grows with the length of the text and no text
is refused for its sake.
-/
import ModuleAtlas.Script.Grammar.Statement

namespace ModuleAtlas.Script

open Script.Parser

/-- One rule, given the rules for what is nested further down. -/
def Grammar.rule (g : Grammar) : Rule → Parser Tree
  | .statement => g.statement
  | .block => g.block
  | .expression x => g.expression x
  | .operand x => g.operand x
  | .type ends => g.type ends
  | .pattern => g.pattern
  | .element => g.element

/-- The rules, down to the given depth. -/
def rule (d : Dialect) : Nat → Rule → Parser Tree
  | 0, _ => fail
  | depth + 1, r => (⟨d, rule d depth⟩ : Grammar).rule r

/-- The comments in front, as items. -/
def remarkItems (c : Cursor) : List Item × Cursor :=
  let (found, d) := c.comments (c.left + 1)
  (found.map .comment, d)

/-- The items from a cursor to the end of the text, of which at most `fuel` are
statements. -/
def items (statement : Parser Tree) : Nat → Cursor → Option (List Item)
  | 0, _ => none
  | fuel + 1, c =>
    let (remarks, d) := remarkItems c
    if d.rest.isEmpty then some remarks
    else
      match statement d with
      | none => none
      | some (t, e) => (items statement fuel e).map fun more => remarks ++ .statement t :: more

/-- The cursor behind a line that names an interpreter, which only gaps and comments may stand in
front of. -/
def afterInterpreter (c : Cursor) : Cursor :=
  let d := (remarkItems c).2
  if d.startsWith "#!" then d.drop (d.rest.takeWhile fun x => x != '\n').length else c

/-- How deep the rules may nest in a text of a given length. -/
def depthFor (length : Nat) : Nat := 16 * (length + 4)

/-- The items of a script, or `none` if it is no script of the dialect. -/
def parse? (d : Dialect) (s : List Char) : Option (List Item) :=
  let c := afterInterpreter (Cursor.ofText s)
  items (rule d (depthFor s.length) .statement) (s.length + 1) c

end ModuleAtlas.Script
