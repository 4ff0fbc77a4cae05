/-
ModuleAtlas/Script/Grammar/Class.lean

Classes: their members and their heads.
-/
import ModuleAtlas.Script.Grammar.Function
import ModuleAtlas.Script.Grammar.Type

namespace ModuleAtlas.Script

open Script.Parser

namespace Grammar

/-- A member of a class body: what is known of it, and what it holds. -/
abbrev ClassItem := Option Member × List Tree

/-- The words that say who may use a member. -/
def accessWords : List String := ["public", "private", "protected"]

/-- The visibility that the words in front of a member and its name give it. -/
def visibilityOf (modifiers : List String) (k : Key) : Visibility :=
  if modifiers.contains "public" then .everyone
  else if modifiers.contains "protected" then .subclasses
  else if modifiers.contains "private" then .owner
  else if k.form == .hidden then .owner
  else .everyone

/-- Without the first word, if it is one of the given ones. -/
def without (words : List String) : List String → List String
  | [] => []
  | w :: ws => if words.contains w then ws else w :: ws

/-- Without the words of each group in turn. -/
def withoutEach (groups : List (List String)) (ws : List String) : List String :=
  groups.foldl (fun ws words => without words ws) ws

/-- The words may stand in front of a method. -/
def methodOrder (ws : List String) : Bool :=
  withoutEach [accessWords, ["static"], ["override"], ["readonly"], ["async"],
    ["get", "set", "*"]] ws == []

/-- The words may stand in front of an abstract method. -/
def abstractOrder (ws : List String) : Bool :=
  match without accessWords ws with
  | "abstract" :: rest => withoutEach [["override"], ["get", "set", "*"]] rest == []
  | _ => false

/-- The words may stand in front of a field. -/
def fieldOrder (ws : List String) : Bool :=
  let rest :=
    match ws with
    | "declare" :: more => without accessWords more
    | _ =>
      let more := without accessWords ws
      if more.length < ws.length then without ["declare"] more else more
  withoutEach [["static"], ["override"], ["readonly"]] rest == []
    || withoutEach [["abstract"], ["readonly"]] rest == []
    || withoutEach [["readonly"], ["abstract"]] rest == []
    || withoutEach [["accessor"]] rest == []

/-- The words that can stand in front of a member's name. -/
def modifierWords (g : Grammar) : List String :=
  if g.dialect.typed then
    accessWords ++ ["static", "override", "readonly", "declare", "abstract", "async", "accessor",
      "get", "set"]
  else ["static", "async", "get", "set"]

/-- The words in front of a member's name, and the star of a generator. -/
def modifiers (g : Grammar) (ends : Bool) : Parser (List String) := do
  let ws ← many (g.memberModifier ends g.modifierWords true)
  match ← maybe (mark "*") with
  | some _ => return ws ++ ["*"]
  | none => return ws

/-- The words `static get` with a line break behind them, which the untyped
dialect reads as one. -/
def brokenGetter : Parser Unit := do
  let s ← lexeme fun s =>
    if "static".toList.isPrefixOf s then
      let gap := ((s.drop 6).takeWhile isAsciiSpace).length
      let rest := s.drop (6 + gap)
      let tail := (rest.drop 3).takeWhile isAsciiSpace
      if 0 < gap && "get".toList.isPrefixOf rest && tail.contains '\n' then some (9 + gap) else none
    else none
  need (!s.isEmpty)
where
  /-- Plain space. -/
  isAsciiSpace (c : Char) : Bool := (9 ≤ c.toNat && c.toNat ≤ 13) || c == ' '

/-- The member that a method or its head stands for.  Setters and constructors
are none. -/
def methodMember (ws : List String) (k : Key) (h : Head) (isStatic : Bool) : Option Member :=
  if ws.contains "set" || k.text == "constructor" then none
  else some ⟨k.text, .function, visibilityOf ws k, isStatic, some h.signature⟩

/-- A method, with its body or in a typed dialect without. -/
def method (g : Grammar) (ws : List String) (k : Key) (isStatic : Bool) : Parser ClassItem := do
  let h ← g.head true
  let member := methodMember ws k h isStatic
  let parts := k.inside ++ h.parts
  if (← isNext "\x7b") && methodOrder ws then
    let body ← g.parse .block
    if g.dialect.typed then
      let _ ← maybe (g.semicolon .other)
    else
      let _ ← maybe (mark ";")
    return (member, parts ++ [body])
  else
    need g.dialect.typed
    need (methodOrder ws || abstractOrder ws)
    either (mark ",") (g.semicolon (if methodOrder ws then .signature else .other))
    return (member, parts)

/-- A field. -/
def field (g : Grammar) (ws : List String) (k : Key) (isStatic : Bool) : Parser ClassItem := do
  let type ← if g.dialect.typed then maybe (g.typing true) else pure none
  let value ← maybe (g.initializer .last)
  let before : Before := if value.isSome then .expression else .other
  if g.dialect.typed then
    need (fieldOrder ws)
    either (mark ",") (g.semicolon before)
  else
    need (withoutEach [["static"]] ws == [])
    g.semicolon before
  return (some ⟨k.text, .variable, visibilityOf ws k, isStatic, none⟩,
    k.inside ++ type.toList ++ value.toList)

/-- A member with a name. -/
def namedMember (g : Grammar) : Parser ClassItem := do
  let broken ← if g.dialect.typed then pure none else maybe brokenGetter
  let ws ← if broken.isSome then pure ["get"] else g.modifiers true
  let isStatic := ws.contains "static"
  let k ← g.key
  if g.dialect.typed then
    let _ ← maybe (either (mark "?") (mark "!"))
  if (← isNext "(") || (← isNext "<") then g.method ws k isStatic
  else g.field ws k isStatic

/-- One item of a class body. -/
def classItem (g : Grammar) : Parser ClassItem :=
  [ do mark ";"; return (none, []),
    do
      keyword "static"
      need (← isNext "\x7b")
      return (none, [← g.parse .block]),
    do
      need g.dialect.typed
      let t ← g.indexSignature true
      either (mark ",") (g.semicolon .other)
      return (none, [t]),
    do
      let decorated ← g.decorators
      let (m, parts) ← g.namedMember
      return (m, decorated ++ parts) ].foldr either fail

/-- A class body. -/
def classBody (g : Grammar) : Parser (List Member × List Tree) := do
  mark "\x7b"
  let items ← many g.classItem
  mark "\x7d"
  return (items.filterMap (·.1), (items.map (·.2)).flatten)

/-- What a class is built on. -/
def heritage (g : Grammar) : Parser (List Tree) := do
  if g.dialect.typed then
    let bases ← maybe (do
      keyword "extends"
      commas (do
        let e ← g.inner
        let types ← maybe g.typeArguments
        return e :: types.getD []))
    let interfaces ← maybe (do keyword "implements"; commas (g.parse (.type false)))
    return (bases.getD []).flatten ++ interfaces.getD []
  else
    match ← maybe (do keyword "extends"; g.inner) with
    | some e => return [e]
    | none => return []

/-- A class from its name on. -/
structure ClassRest where
  name : Option Word
  members : List Member
  parts : List Tree
deriving Inhabited

/-- The name of a class, unless the class goes on without one. -/
def className (g : Grammar) : Parser Word := do
  let w ← g.identifier
  need (w.text != "extends" && !(g.dialect.typed && w.text == "implements"))
  return w

/-- A class behind the word that announces it.  In the untyped dialect its name
is a name of a value. -/
def classRest (g : Grammar) : Parser ClassRest := do
  let name ← maybe g.className
  let generic ← if g.dialect.typed then maybe g.typeParameters else pure none
  let base ← g.heritage
  let (members, parts) ← g.classBody
  let named : List Tree :=
    if g.dialect.typed then [] else name.toList.map fun w => .name w.text
  return ⟨name, members, named ++ generic.getD [] ++ base ++ parts⟩

/-- A class as a value. -/
def classExpression (g : Grammar) : Parser Tree := do
  let decorated ← g.decorators
  keyword "class"
  let c ← g.classRest
  return .classValue c.members (decorated ++ c.parts)

end Grammar

end ModuleAtlas.Script
