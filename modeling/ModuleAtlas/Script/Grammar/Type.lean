/-
ModuleAtlas/Script/Grammar/Type.lean

Types.  Only what they hold of values and modules enters the tree, so the
operators between types are read in a row, whatever binds stronger.
-/
import ModuleAtlas.Script.Grammar.Parameter

namespace ModuleAtlas.Script

open Script.Parser

namespace Grammar

/-- An operand of a type, and whether brackets may follow it. -/
abbrev TypeOperand := Tree × Bool

/-- Members of a name in a type. -/
def typeMembers : Parser Bool := do
  return !(← many (do mark "."; word)).isEmpty

/-- A type named by a word, perhaps inside a module, perhaps with arguments. -/
def namedType (g : Grammar) : Parser Tree := do
  let w ← word
  let nested ← typeMembers
  let types ← maybe g.typeArguments
  return .group ((if nested then [.name w.text] else []) ++ types.getD [])

/-- A module called by its specifier, as a type. -/
def loadedType (g : Grammar) (ends : Bool) : Parser Tree := do
  let pos ← place
  keyword "import"
  let first : Tree := .call pos .loader [] (← g.arguments)
  let more ← many (do
    g.goesOn ends .other
    either
      (do
        mark "."
        let _ ← either (lexeme privateLength?) (lexeme wordLength?)
        return [])
      g.arguments)
  return .group (first :: more.flatten)

/-- The value whose type is asked for. -/
def queried (g : Grammar) (ends : Bool) : Parser Tree := do
  let pos ← place
  let w ← word
  let base : Tree :=
    if w.text == "import" then .loader
    else if w.text == "this" then .group []
    else .name w.text
  let step (t : Tree) : Parser Tree := do
    g.goesOn ends .other
    if ← isNext "(" then return .call pos t [] (← g.arguments)
    else
      either (mark ".") (mark "?.")
      let _ ← either (lexeme privateLength?) (lexeme wordLength?)
      return .group [t]
  let rec chain (t : Tree) : Nat → Parser Tree
    | 0 => return t
    | fuel + 1 => do
      match ← maybe (step t) with
      | some u => chain u fuel
      | none => return t
  let t ← fun c => chain base (c.left + 1) c
  need (w.text != "import" || (match t with | .loader => false | _ => true))
  match ← maybe g.typeArguments with
  | some types => return .group (t :: types)
  | none => return t

/-- A member of a tuple. -/
def tupleMember (g : Grammar) : Parser Tree :=
  either
    (do
      let _ ← maybe (mark "...")
      let w ← word
      let _ ← maybe (mark "?")
      let t ← g.typing false
      return .group [.name w.text, t])
    (do
      let _ ← maybe (mark "...")
      let t ← g.parse (.type false)
      let _ ← maybe (mark "?")
      return t)

/-- The sign of an added or removed modifier, in front of a mapped type's colon. -/
def mappedColon : Parser Unit :=
  either (mark ":") (either (mark "?:") (either (mark "-?:") (mark "+?:")))

/-- An index signature, or the clause of a mapped type. -/
def indexSignature (g : Grammar) (ends : Bool) : Parser Tree := do
  let _ ← maybe (do
    let _ ← maybe (either (mark "+") (mark "-"))
    keyword "readonly")
  mark "["
  let w ← word
  let inside ← either
    (do return [.name w.text, ← g.typing false])
    (do
      keyword "in"
      let t ← g.parse (.type false)
      let renamed ← maybe (do keyword "as"; g.parse (.type false))
      return t :: renamed.toList)
  mark "]"
  mappedColon
  return .group (inside ++ [← g.parse (.type ends)])

/-- One of the words, provided that it is no name by itself: something that can be
named comes behind it, with no end of a statement between. -/
def memberModifier (g : Grammar) (ends : Bool) (words : List String) (star : Bool) :
    Parser String := do
  let w ← keywordOf words
  g.goesOn ends .other
  match ← nextChar with
  | some c =>
    need (isWordStart c || c.isDigit || c == '\\' || c == '"' || c == '\'' || c == '[' || c == '#'
      || (star && c == '*'))
    return w
  | none => fail

/-- The words in front of a member's name that are read away in a type. -/
def typeModifiers (g : Grammar) (method : Bool) : Parser Unit := do
  let _ ← maybe (g.memberModifier true ["public", "private", "protected"] false)
  let _ ← maybe (g.memberModifier true ["static"] false)
  let _ ← maybe (g.memberModifier true ["override"] false)
  let _ ← maybe (g.memberModifier true ["readonly"] false)
  if method then
    let _ ← maybe (g.memberModifier true ["async"] true)
    let _ ← maybe (either (do let _ ← g.memberModifier true ["get", "set"] false) (mark "*"))

/-- A member of an object type. -/
def typeMember (g : Grammar) : Parser Tree :=
  [ g.indexSignature true,
    do
      let _ ← maybe (keyword "abstract")
      keyword "new"
      let generic ← maybe g.typeParameters
      let ps ← g.parameters
      let t ← maybe (g.typing true)
      return .group (generic.getD [] ++ ps ++ t.toList),
    do return .group (← g.head true).parts,
    do
      g.typeModifiers true
      let k ← g.key
      let _ ← maybe (mark "?")
      return .group (k.inside ++ (← g.head true).parts),
    do
      g.typeModifiers false
      let k ← g.key
      let _ ← maybe (mark "?")
      let t ← maybe (g.typing true)
      return .group (k.inside ++ t.toList) ].foldr either fail

/-- The members of an object type behind its opening brace. -/
def typeMembersOf (g : Grammar) : Nat → Parser (List Tree)
  | 0 => fail
  | fuel + 1 => do
    match ← maybe (mark "\x7d") with
    | some _ => return []
    | none =>
      let t ← g.typeMember
      match ← maybe (mark "\x7d") with
      | some _ => return [t]
      | none =>
        either (mark ",") (g.semicolon .other)
        return t :: (← typeMembersOf g fuel)

/-- An object type. -/
def objectType (g : Grammar) : Parser Tree := do
  mark "\x7b"
  let _ ← maybe (either (mark ",") (mark ";"))
  return .group (← fun c => typeMembersOf g (c.left + 1) c)

/-- A function type. -/
def functionType (g : Grammar) (ends : Bool) : Parser Tree := do
  let generic ← maybe g.typeParameters
  let ps ← g.parameters
  mark "=>"
  return .group (generic.getD [] ++ ps ++ [← g.resultType ends])

/-- A type that starts with a word. -/
def wordType (g : Grammar) (ends : Bool) (w : String) : Parser TypeOperand :=
  match w with
  | "readonly" =>
    either (do keyword "readonly"; return (← g.parse (.type ends), false))
      (do return (← g.namedType, true))
  | "keyof" => do keyword "keyof"; return (← g.parse (.type ends), true)
  | "typeof" => do keyword "typeof"; return (← g.queried ends, true)
  | "unique" => do keyword "unique"; keyword "symbol"; return (.group [], true)
  | "infer" => do
    keyword "infer"
    let _ ← word
    let bound ← maybe (do g.goesOn ends .other; keyword "extends"; g.parse (.type ends))
    return (.group bound.toList, false)
  | "new" => do
    keyword "new"
    return (← g.functionType ends, false)
  | "abstract" =>
    either (do keyword "abstract"; keyword "new"; return (← g.functionType ends, false))
      (do return (← g.namedType, true))
  | "import" => do return (← g.loadedType ends, false)
  | "this" => do keyword "this"; return (.group [], true)
  | _ => do return (← g.namedType, true)

/-- An operand of a type. -/
def typeOperand (g : Grammar) (ends : Bool) : Parser TypeOperand := do
  let c ← nextChar
  match c with
  | none => fail
  | some '(' =>
    either (do return (← g.functionType ends, false))
      (do
        mark "("
        let t ← g.parse (.type false)
        mark ")"
        return (t, true))
  | some '<' => return (← g.functionType ends, false)
  | some '\x7b' => return (← g.objectType, true)
  | some '[' =>
    mark "["
    let all ← loose g.tupleMember
    mark "]"
    return (.group all, true)
  | some '`' => return (← templateOf (g.parse (.type false)), true)
  | some '?' => mark "?"; return (← g.parse (.type ends), true)
  | some '*' => mark "*"; return (.group [], true)
  | some c =>
    if c == '"' || c == '\'' then
      let _ ← lexeme stringLength?
      return (.group [], true)
    else if c == '-' || c == '+' then
      either (mark "-") (mark "+")
      let _ ← lexeme numberLength?
      return (.group [], true)
    else if c.isDigit || c == '.' then
      let _ ← lexeme numberLength?
      return (.group [], true)
    else
      match ← nextWord with
      | some w => g.wordType ends w
      | none => fail

/-- An operand behind any number of leading bars. -/
def barredOperand (g : Grammar) (ends : Bool) : Parser TypeOperand := do
  let _ ← many (either (mark "|") (mark "&"))
  g.typeOperand ends

/-- What follows an operand of a type. -/
def typeSuffix (g : Grammar) (ends brackets : Bool) : Parser TypeOperand := do
  g.goesOn ends .other
  match ← nextChar with
  | some '|' => mark "|"; g.barredOperand ends
  | some '&' => mark "&"; g.barredOperand ends
  | some '[' =>
    need brackets
    mark "["
    match ← maybe (mark "]") with
    | some _ => return (.group [], true)
    | none =>
      let t ← g.parse (.type false)
      mark "]"
      return (t, true)
  | some 'e' =>
    keyword "extends"
    let right ← g.parse (.type false)
    mark "?"
    let yes ← g.parse (.type false)
    mark ":"
    let no ← g.parse (.type ends)
    return (.group [right, yes, no], false)
  | _ => fail

/-- All that follows an operand of a type. -/
def typeSuffixes (g : Grammar) (ends : Bool) (brackets : Bool) : Nat → Parser (List Tree)
  | 0 => return []
  | fuel + 1 => do
    match ← maybe (g.typeSuffix ends brackets) with
    | some (t, brackets) => return t :: (← typeSuffixes g ends brackets fuel)
    | none => return []

/-- A type. -/
def type (g : Grammar) (ends : Bool) : Parser Tree := do
  let (first, brackets) ← g.barredOperand ends
  let more ← fun c => typeSuffixes g ends brackets (c.left + 1) c
  return if more.isEmpty then first else .group (first :: more)

end Grammar

end ModuleAtlas.Script
