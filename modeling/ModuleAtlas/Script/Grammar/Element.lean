/-
ModuleAtlas/Script/Grammar/Element.lean

Markup elements.  Closing names are not compared with opening ones.
-/
import ModuleAtlas.Script.Grammar.Call

namespace ModuleAtlas.Script

open Script.Parser

namespace Grammar

/-- A name with hyphens in it. -/
def hyphenated? (s : List Char) : Option Nat :=
  match s with
  | [] => none
  | c :: rest =>
    if isPlain c && !c.isDigit then
      let first := rest.takeWhile isPlain
      match rest.drop first.length with
      | '-' :: more =>
        some (2 + first.length + (more.takeWhile fun c => isPlain c || c == '-').length)
      | _ => none
    else none
where
  /-- A character of a plain name. -/
  isPlain (c : Char) : Bool := c.isAlphanum || c == '_' || c == '$'

/-- The name of an element or an attribute, without members. -/
def tagWord : Parser String := do
  return String.ofList (← either (lexeme hyphenated?) (lexeme wordLength?))

/-- The name of an element: a name, a name in a namespace, or a member. -/
def tagName : Parser (List Tree) := do
  let w ← tagWord
  match ← maybe (do mark ":"; tagWord) with
  | some v => return [.name w, .name v]
  | none =>
    let _ ← many (do mark "."; word)
    return [.name w]

/-- A value in braces, which may also be missing. -/
def braced (g : Grammar) : Parser Tree := do
  mark "\x7b"
  let t ← maybe (either (do mark "..."; return .group [← g.inner]) (g.sequence .inner))
  mark "\x7d"
  return .group t.toList

/-- The length of a reference to a character, its semicolon included. -/
def characterReference? : List Char → Option Nat
  | '&' :: '#' :: x :: rest =>
    if x == 'x' || x == 'X' then closed 3 ((rest.takeWhile isHex).length) 6 rest
    else closed 2 (((x :: rest).takeWhile Char.isDigit).length) 5 (x :: rest)
  | '&' :: rest => closed 1 ((rest.takeWhile Char.isAlpha).length) 30 rest
  | _ => none
where
  /-- Between one and `most` characters, and the semicolon behind them. -/
  closed (before n most : Nat) (rest : List Char) : Option Nat :=
    if 1 ≤ n && n ≤ most && (rest.drop n).head? == some ';' then some (before + n + 1) else none

/-- Text in an attribute up to its quote, character references included. -/
def attributeText (quote : Char) (known : Nat) : List Char → Option Nat
  | [] => none
  | c :: rest =>
    match known with
    | k + 1 => (attributeText quote k rest).map (1 + ·)
    | 0 =>
      if c == quote then some 1
      else if c == '&' then
        match characterReference? (c :: rest) with
        | some k => (attributeText quote (k - 1) rest).map (1 + ·)
        | none =>
          match rest.head? with
          | some d =>
            if d == '#' || d.isAlpha then none else (attributeText quote 0 rest).map (1 + ·)
          | none => none
      else (attributeText quote 0 rest).map (1 + ·)

/-- The string of an attribute. -/
def attributeString? : List Char → Option Nat
  | c :: rest => if c == '"' || c == '\'' then (attributeText c 0 rest).map (1 + ·) else none
  | [] => none

/-- An attribute. -/
def elementAttribute (g : Grammar) : Parser (List Tree) := do
  if ← isNext "\x7b" then return [← g.braced]
  else
    let _ ← tagWord
    let _ ← maybe (do mark ":"; tagWord)
    match ← maybe (mark "=") with
    | none => return []
    | some _ =>
      match ← nextChar with
      | some '\x7b' => return [← g.braced]
      | some '<' => return [← g.parse .element]
      | _ =>
        let _ ← lexeme attributeString?
        return []

/-- Text between elements. -/
def betweenElements (s : List Char) : Nat :=
  (s.takeWhile fun c => !(['<', '>', '\x7b', '\x7d', '&'].contains c)).length

/-- What an element holds, up to and with its closing tag. -/
def elementContent (g : Grammar) : Nat → Parser (List Tree)
  | 0 => fail
  | fuel + 1 => fun c =>
    let c := c.drop (betweenElements c.rest)
    (do
      if c.startsWith "</" then
        mark "</"
        let name ← maybe tagName
        mark ">"
        return name.getD []
      else if c.startsWith "<" then
        let t ← g.parse .element
        return t :: (← elementContent g fuel)
      else if c.startsWith "\x7b" then
        let t ← g.braced
        return t :: (← elementContent g fuel)
      else
        let _ ← lexeme characterReference?
        elementContent g fuel : Parser (List Tree)) c

/-- An element, or a fragment, which has no name. -/
def element (g : Grammar) : Parser Tree := do
  mark "<"
  let opening ← maybe (do
    let name ← tagName
    let types ← if g.dialect.typed then maybe g.typeArguments else pure none
    let attributes ← many g.elementAttribute
    return name ++ types.getD [] ++ attributes.flatten)
  match ← maybe (mark "/>") with
  | some _ =>
    need opening.isSome
    return .group (opening.getD [])
  | none =>
    mark ">"
    let content ← fun c => elementContent g (c.left + 1) c
    return .group (opening.getD [] ++ content)

end Grammar

end ModuleAtlas.Script
