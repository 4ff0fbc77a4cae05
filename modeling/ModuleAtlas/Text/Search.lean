/-
ModuleAtlas/Text/Search.lean

Looking for one text in another.
-/

namespace ModuleAtlas.Text

/-- The second text holds the first one somewhere. -/
def holds (part : List Char) : List Char → Bool
  | [] => part.isEmpty
  | c :: rest => part.isPrefixOf (c :: rest) || holds part rest

/-- The text holds the part somewhere. -/
def has (s part : String) : Bool := holds part.toList s.toList

/-- The text ends with the part. -/
def endsIn (s part : String) : Bool := part.toList.isSuffixOf s.toList

/-- The text starts with the part. -/
def startsIn (s part : String) : Bool := part.toList.isPrefixOf s.toList

end ModuleAtlas.Text
