/-
ModuleAtlas/Text/Range.lean

Sets of characters given as ascending ranges of code points.
-/

namespace ModuleAtlas.Text

/-- Ascending, disjoint ranges of code points, both ends included. -/
abbrev Ranges := List (Nat × Nat)

/-- The character lies in one of the ranges. -/
def Ranges.has (t : Ranges) (c : Char) : Bool :=
  t.any fun r => r.1 ≤ c.toNat && c.toNat ≤ r.2

end ModuleAtlas.Text
