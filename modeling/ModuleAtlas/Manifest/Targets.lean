/-
ModuleAtlas/Manifest/Targets.lean

The targets of an exports field.

The value of an exports field nests conditions and alternatives.  A text is a
target, or, with an exclamation mark in front, one that is left out; of an array
the first item with a target counts; of an object every condition counts, and a
null value leaves its condition out.
-/
import ModuleAtlas.Json.Value
import ModuleAtlas.Text.Search

namespace ModuleAtlas.Manifest

/-- The targets that can be reached, and what is left out on the way. -/
structure Reached where
  targets : List String := []
  excluded : List String := []
deriving DecidableEq, Repr, Inhabited

/-- A mark in front of what is left out. -/
def exclusion (key : String) : String := "!" ++ key

/-- The text is one that is left out. -/
def isExclusion (s : String) : Bool := Text.startsIn s "!"

/-- The elements of a list behind those of another, without any that is there. -/
def appendNew (xs ys : List String) : List String :=
  ys.foldl (fun found y => if found.contains y then found else found ++ [y]) xs

/-- First these, then those, each target once. -/
def Reached.merge (a b : Reached) : Reached :=
  ⟨appendNew a.targets b.targets, a.excluded ++ b.excluded⟩

mutual

/-- The targets that can be reached in a value. -/
def reached : Json → Reached
  | .string s =>
    if isExclusion s then ⟨[], [s]⟩ else if s.isEmpty then {} else ⟨[s], []⟩
  | .array items => reachedFirst items
  | .object fields => reachedAll {} fields
  | _ => {}

/-- The targets of the first item that has any. -/
def reachedFirst : List Json → Reached
  | [] => {}
  | item :: rest =>
    let r := reached item
    if r.targets.isEmpty then
      let more := reachedFirst rest
      ⟨more.targets, r.excluded ++ more.excluded⟩
    else r

/-- The targets of all conditions, behind those found before. -/
def reachedAll (found : Reached) : List (String × Json) → Reached
  | [] => found
  | f :: rest => reachedAll (reachedField found f) rest

/-- The targets of one condition, behind those found before. -/
def reachedField (found : Reached) : String × Json → Reached
  | (key, value) =>
    let r := reached value
    match value with
    | .null => ⟨found.targets, found.excluded ++ [exclusion key]⟩
    | _ => found.merge r

end

/-- A condition and the target under it. -/
abbrev Conditioned := String × String

/-- A condition inside another. -/
def inside (outer key : String) : String := if outer.isEmpty then key else outer ++ "." ++ key

mutual

/-- The targets in a value, each with its condition, inside a given condition. -/
def conditioned (outer : String) : Json → List Conditioned
  | .string s =>
    if isExclusion s then [] else [(if outer.isEmpty then "default" else outer, s)]
  | .array items => conditionedFirst outer items
  | .object fields => conditionedAll outer fields
  | _ => []

/-- Those of the first item that has any. -/
def conditionedFirst (outer : String) : List Json → List Conditioned
  | [] => []
  | item :: rest =>
    let found := conditioned outer item
    if found.isEmpty then conditionedFirst outer rest else found

/-- Those of all conditions. -/
def conditionedAll (outer : String) : List (String × Json) → List Conditioned
  | [] => []
  | f :: rest => conditionedField outer f ++ conditionedAll outer rest

/-- Those of one condition. -/
def conditionedField (outer : String) : String × Json → List Conditioned
  | (key, value) => conditioned (inside outer key) value

end

/-- The subpaths of an exports field, each with its value.  A value that names no
subpath is that of the package itself. -/
def subpaths : Json → List (String × Json)
  | .null => []
  | .object fields =>
    if fields.any fun f => Text.startsIn f.1 "." then
      fields.filter fun f => Text.startsIn f.1 "."
    else [(".", .object fields)]
  | value => [(".", value)]

end ModuleAtlas.Manifest
