/-
ModuleAtlas/Script/Dialect.lean

The three script dialects and how a path selects one.
-/
import ModuleAtlas.Text.Blank
import ModuleAtlas.Text.Case

namespace ModuleAtlas.Script

/-- A script dialect: TypeScript, TypeScript with elements, or JavaScript. -/
inductive Dialect where
  | typescript
  | tsx
  | javascript
deriving DecidableEq, Repr, Inhabited

namespace Dialect

/-- The dialect has types. -/
def typed : Dialect → Bool
  | .javascript => false
  | _ => true

/-- The dialect has markup elements. -/
def elements : Dialect → Bool
  | .typescript => false
  | _ => true

/-- The word that stands for a dialect in answers. -/
def label : Dialect → String
  | .typescript => "typescript"
  | .tsx => "tsx"
  | .javascript => "javascript"

/-- The dialect of a file suffix, its leading dot included. -/
def ofSuffix? : String → Option Dialect
  | ".ts" | ".mts" | ".cts" => some .typescript
  | ".tsx" => some .tsx
  | ".js" | ".jsx" | ".mjs" | ".cjs" => some .javascript
  | _ => none

end Dialect

/-- The last named segment of a path, read leniently: empty segments and single
dots do not count. -/
def lastSegment (path : String) : List Char :=
  let parts := Text.split '/' path.toList
  (parts.filter fun p => p ≠ [] && p ≠ ['.']).getLast?.getD []

/-- The suffix of a file name: from its last dot on, provided that something
stands on both sides of that dot. -/
def suffixOf (name : List Char) : List Char :=
  let tail := (name.reverse.takeWhile (· ≠ '.')).reverse
  if tail.length + 1 < name.length && tail ≠ [] then '.' :: tail else []

/-- The dialect that a path selects, by its suffix in lower case. -/
def Dialect.ofPath? (path : String) : Option Dialect :=
  ofSuffix? (Text.lower (String.ofList (suffixOf (lastSegment path))))

end ModuleAtlas.Script
