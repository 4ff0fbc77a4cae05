/-
ModuleAtlas/Script/Signature.lean

Signatures: the text of a declaration's head, on one line and cut to a bound.
-/
import ModuleAtlas.Text.Blank

namespace ModuleAtlas.Script

namespace Signature

/-- The longest signature that is shown in full. -/
def bound : Nat := 200

/-- Three dots stand for what is cut off. -/
def dots : List Char := ['.', '.', '.']

/-- A text on one line; beyond the bound, so much of it as leaves room for the dots. -/
def shorten (s : List Char) : String :=
  let flat := Text.squeeze s
  String.ofList (if bound < flat.length then flat.take (bound - dots.length) ++ dots else flat)

/-- The signature of a function, of its parameters and the type of its result. -/
def ofParts (parameters : List Char) : Option (List Char) → String
  | none => shorten parameters
  | some result => shorten (parameters ++ " => ".toList ++ Text.trim (result.dropWhile (· == ':')))

end Signature

end ModuleAtlas.Script
