/-
ModuleAtlas/Script/Grammar/Expression.lean

Expressions.  Operators between operands are read in a row, whatever binds
stronger: no record depends on it.  What matters is which operand is a call, and
what it is called on, so the suffixes of an operand are read before all else.
-/
import ModuleAtlas.Script.Grammar.Class
import ModuleAtlas.Script.Grammar.Element

namespace ModuleAtlas.Script

open Script.Parser

namespace Grammar

/-- A value, and whether something can be assigned to it. -/
abbrev Value := Tree × Bool

/-! ### Objects and arrays -/

/-- A member of an object. -/
def objectMember (g : Grammar) : Parser Tree :=
  [ do mark "..."; return .group [← g.inner],
    do
      let ws ← g.modifiers false
      let k ← g.key
      if g.dialect.typed then
        let _ ← maybe (mark "?")
      let h ← g.head false
      need (methodOrder ws)
      let body ← g.parse .block
      return .group (k.inside ++ h.parts ++ [body]),
    do
      let k ← g.key
      mark ":"
      return .group (k.inside ++ [← g.inner]),
    do
      let _ ← g.identifier
      return .group [] ].foldr either fail

/-- An object. -/
def object (g : Grammar) : Parser Tree := do
  mark "\x7b"
  let all ← places g.objectMember
  mark "\x7d"
  return .group all

/-- An array. -/
def array (g : Grammar) : Parser Tree := do
  mark "["
  let all ← places g.spreadable
  mark "]"
  return .group all

/-! ### Values without suffixes -/

/-- Words that stand for a value of their own. -/
def ownWords : List String := ["this", "super", "true", "false", "null"]

/-- A value that starts with a word. -/
def wordValue (g : Grammar) : Parser Value := do
  let w ← word
  if w.text == "import" then
    need ((← isNext "(") || (← isNext "."))
    return (.loader, false)
  else if ownWords.contains w.text then return (.group [], false)
  else if w.text == "undefined" then return (.group [], true)
  else
    need (g.canName w.text || w.text == "export")
    return (.name w.text, true)

/-- A value without suffixes. -/
def primary (g : Grammar) : Parser Value := do
  match ← following with
  | [] => fail
  | c :: rest =>
    match c with
    | '(' => return (← g.condition, true)
    | '[' => return (← g.array, false)
    | '\x7b' => return (← g.object, false)
    | '`' => return (← g.template, false)
    | '"' => return (.quoted (← quoted), false)
    | '\'' => return (.quoted (← quoted), false)
    | '/' =>
      let _ ← lexeme regexLength?
      return (.group [], false)
    | '@' => return (← g.classExpression, false)
    | _ =>
      if c.isDigit || (c == '.' && (rest.head?.map Char.isDigit).getD false) then
        let _ ← lexeme numberLength?
        return (.group [], false)
      else
        match ← nextWord with
        | some "function" => return (← g.functionExpression, false)
        | some "class" => return (← g.classExpression, false)
        | some _ => g.wordValue
        | none => fail

/-! ### Suffixes -/

/-- What may stand behind type arguments that no call follows. -/
def endsTypeArguments (g : Grammar) (x : Context) : Parser Bool := do
  if x.ends && (← g.endsHere .expression) then return true
  match ← following with
  | [] => return true
  | c :: rest =>
    if ")]:;,.?=|&*%^\x7b\x7d".toList.contains c then return true
    else if c == '!' then return rest.head? == some '='
    else
      match ← nextWord with
      | some w => return ["as", "satisfies", "in", "instanceof", "implements"].contains w
      | none => return false

/-- Type arguments behind a value. -/
def valueTypes (g : Grammar) : Parser (List Tree) := do
  need g.dialect.typed
  let types ← g.typeArguments
  fun c => if c.startsWith "=" || c.startsWith ">" then none else some (types, c)

/-- The name of a member behind its dot. -/
def memberName : Parser Unit := do
  let _ ← either (lexeme privateLength?) (lexeme wordLength?)

/-- A call with type arguments, or a value with them. -/
def typedSuffix (g : Grammar) (x : Context) (pos : Position) (t : Tree) : Parser Value := do
  let types ← g.valueTypes
  if ← isNext "(" then return (.call pos t types (← g.arguments), false)
  else
    need (← g.endsTypeArguments x)
    return (.group (t :: types), false)

/-- What stands behind the sign of an optional access. -/
def optionalSuffix (g : Grammar) (pos : Position) (t : Tree) : Parser Value := do
  mark "?."
  match ← nextChar with
  | some '(' => return (.call pos t [] (← g.arguments), false)
  | some '<' =>
    need g.dialect.typed
    let types ← g.typeArguments
    return (.call pos t types (← g.arguments), false)
  | some '[' =>
    mark "["
    let e ← g.sequence .inner
    mark "]"
    return (.group [t, e], true)
  | _ =>
    memberName
    return (.group [t], true)

/-- An access to a member, by name or by index. -/
def memberAccess (g : Grammar) (t : Tree) : Parser Value := do
  if ← isNext "[" then
    mark "["
    let e ← g.sequence .inner
    mark "]"
    return (.group [t, e], true)
  else
    mark "."
    memberName
    return (.group [t], true)

/-- One suffix of a value that starts at the given place. -/
def suffix (g : Grammar) (x : Context) (pos : Position) (t : Tree) : Parser Value := do
  g.goesOn x.ends .expression
  match ← following with
  | [] => fail
  | c :: rest =>
    match c with
    | '.' => g.memberAccess t
    | '[' => g.memberAccess t
    | '(' => return (.call pos t [] (← g.arguments), false)
    | '`' => return (.group [t, ← g.template], false)
    | '?' =>
      need (match rest with
        | '.' :: d :: _ => !d.isDigit
        | _ => false)
      g.optionalSuffix pos t
    | '+' => mark "++"; return (.group [t], false)
    | '-' => mark "--"; return (.group [t], false)
    | '!' =>
      need (g.dialect.typed && rest.head? != some '=')
      mark "!"
      return (.group [t], true)
    | '<' => g.typedSuffix x pos t
    | _ => fail

/-- All suffixes of a value. -/
def suffixes (g : Grammar) (x : Context) (pos : Position) (v : Value) : Nat → Parser Value
  | 0 => return v
  | fuel + 1 => do
    match ← maybe (g.suffix x pos v.1) with
    | some u => suffixes g x pos u fuel
    | none => return v

/-- A value with all its suffixes. -/
def suffixed (g : Grammar) (x : Context) (pos : Position) (v : Value) : Parser Value :=
  fun c => suffixes g x pos v (c.left + 1) c

/-! ### Assignments -/

/-- The sign of a plain assignment. -/
def equals : Parser Unit := do
  mark "="
  fun c => if c.startsWith "=" || c.startsWith ">" then none else some ((), c)

/-- The signs of assignments that combine. -/
def combining : List String :=
  [">>>=", "**=", ">>=", "<<=", "&&=", "||=", "??=", "+=", "-=", "*=", "/=", "%=", "^=", "&=", "|="]

/-- The sign of any assignment. -/
def assignment (g : Grammar) (x : Context) : Parser Tree := do
  g.goesOn x.ends .expression
  either equals ((combining.map mark).foldr either fail)
  g.parse (.expression x)

/-- A value with its suffixes, and perhaps an assignment to it. -/
def target (g : Grammar) (x : Context) (pos : Position) (v : Value) : Parser Tree := do
  let (t, assignable) ← g.suffixed x pos v
  if assignable then
    match ← maybe (g.assignment x) with
    | some e => return .group [t, e]
    | none => return t
  else return t

/-- An assignment to a pattern. -/
def patternAssignment (g : Grammar) (x : Context) : Parser Tree := do
  let p ← g.destructuring
  equals
  return .group [p, ← g.parse (.expression x)]

/-- An operand that starts with a value. -/
def chain (g : Grammar) (x : Context) : Parser Tree := do
  let pos ← place
  let c ← nextChar
  if c == some '[' || c == some '\x7b' then
    either
      (do
        let v ← g.primary
        let t ← g.target x pos v
        need (!(← isAssigned))
        return t)
      (g.patternAssignment x)
  else g.target x pos (← g.primary)
where
  /-- A plain assignment follows. -/
  isAssigned : Parser Bool := do return (← ahead equals).isSome

/-! ### Operands -/

/-- What `new` constructs. -/
def constructed (g : Grammar) : Nat → Parser Tree
  | 0 => fail
  | fuel + 1 => do
    if !g.dialect.typed && (← nextWord) == some "new" then
      keyword "new"
      let t ← constructed g fuel
      let args ← maybe g.arguments
      return .group (t :: args.getD [])
    else
      let (t, _) ← g.primary
      let access ← many (either
        (do return [(← g.memberAccess (.group [])).1])
        (either (do return [← g.template])
          (do
            need g.dialect.typed
            mark "!"
            return [])))
      return .group (t :: access.flatten)

/-- A construction of a value. -/
def construction (g : Grammar) (x : Context) : Parser Value := do
  keyword "new"
  match ← maybe (do mark "."; keyword "target") with
  | some _ => return (.group [], false)
  | none =>
    let t ← fun c => constructed g (c.left + 1) c
    let types ← maybe (do
      let types ← g.valueTypes
      need ((← isNext "(") || (← g.endsTypeArguments x))
      return types)
    let args ← maybe (do g.goesOn x.ends .expression; g.arguments)
    return (.group (t :: (types.getD [] ++ args.getD [])), false)

/-- What starts with an angle bracket: an arrow function with type parameters, an
element, or a value whose type is asserted. -/
def angled (g : Grammar) (x : Context) : Parser Tree := do
  let pos ← place
  let other : Parser Tree :=
    if g.dialect.elements then do
      let t ← g.parse .element
      return (← g.suffixed x pos (t, false)).1
    else do
      let types ← g.typeArguments
      return .group (types ++ [← g.parse (.operand x)])
  if g.dialect.typed then either (g.arrow x) other else other

/-- A yield, with or without a value. -/
def yielded (g : Grammar) (x : Context) : Parser Tree := do
  keyword "yield"
  if x.ends && (← g.endsHere .other) then return .group []
  else
    match ← maybe (mark "*") with
    | some _ => return .group [← g.parse (.expression x)]
    | none => return .group (← maybe (do noMarkup; g.parse (.expression x))).toList

/-- A function that starts with the word `async`, or else that word as a name. -/
def asynchronous (g : Grammar) (x : Context) : Parser Tree := do
  let pos ← place
  [ g.arrow x,
    do
      need (← isFunction)
      g.target x pos (← g.functionExpression, false),
    g.chain x ].foldr either fail
where
  /-- The word `function` follows on the same line, where a line can end a statement. -/
  isFunction : Parser Bool := do
    return (← ahead (do
      keyword "async"
      g.goesOn x.ends .expression
      keyword "function")).isSome

/-- An operand that starts with a word. -/
def wordOperand (g : Grammar) (x : Context) (w : String) : Parser Tree := do
  let pos ← place
  match w with
  | "typeof" | "void" | "delete" | "await" =>
    keyword w
    return .group [← g.parse (.operand x)]
  | "yield" => g.yielded x
  | "async" => g.asynchronous x
  | "new" =>
    let v ← g.construction x
    g.target x pos v
  | "function" | "class" | "import" => g.chain x
  | "using" =>
    if g.dialect.typed then
      either
        (do
          keyword "using"
          g.goesOn x.ends .expression
          need ((← nextWord).isSome)
          let p ← g.assignable
          return .group [p, ← g.assignment x])
        (either (g.arrow x) (g.chain x))
    else either (g.arrow x) (g.chain x)
  | _ => either (g.arrow x) (g.chain x)

/-- An operand: a value with its suffixes behind its operators. -/
def operand (g : Grammar) (x : Context) : Parser Tree := do
  let _ ← remarks
  match ← following with
  | [] => fail
  | c :: _ =>
    match c with
    | '!' => mark "!"; return .group [← g.parse (.operand x)]
    | '~' => mark "~"; return .group [← g.parse (.operand x)]
    | '+' =>
      either (mark "++") (mark "+")
      return .group [← g.parse (.operand x)]
    | '-' =>
      either (mark "--") (mark "-")
      return .group [← g.parse (.operand x)]
    | '<' => g.angled x
    | '#' =>
      let _ ← lexeme privateLength?
      need ((← nextWord) == some "in")
      return .group []
    | '(' => either (g.arrow x) (g.chain x)
    | _ =>
      match ← nextWord with
      | some w => g.wordOperand x w
      | none => g.chain x

/-! ### Operators -/

/-- Operators between operands, longer ones first. -/
def operators : List String :=
  [">>>", "===", "!==", "&&", "||", "??", ">>", "<<", "==", "!=", "<=", ">=", "**", "+", "-",
    "*", "/", "%", "&", "|", "^", "<", ">"]

/-- An operator between operands. -/
def operator : Parser Unit :=
  either ((operators.map mark).foldr either fail)
    (do let _ ← keywordOf ["in", "instanceof"])

/-- The rest of a conditional behind its question mark. -/
def conditional (g : Grammar) (x : Context) : Parser Tree := do
  mark "?"
  let yes ← either
    (do let t ← g.parse (.expression .inner); mark ":"; return t)
    (do let t ← g.parse (.expression ⟨false, true⟩); mark ":"; return t)
  return .group [yes, ← g.parse (.expression x)]

/-- A question mark that starts a conditional comes next. -/
def asksNext : Parser Bool := do
  match ← following with
  | '?' :: '?' :: _ => return false
  | '?' :: '.' :: d :: _ => return d.isDigit
  | '?' :: _ => return true
  | _ => return false

/-- One further operand with its operator, or the rest of a conditional. -/
def continuation (g : Grammar) (x : Context) : Parser Tree := do
  g.goesOn x.ends .expression
  if ← asksNext then g.conditional x
  else
    match ← nextWord with
    | some w =>
      if g.dialect.typed && (w == "as" || w == "satisfies") then
        let _ ← word
        g.parse (.type x.ends)
      else
        operator
        g.parse (.operand x)
    | none =>
      operator
      g.parse (.operand x)

/-- An expression. -/
def expression (g : Grammar) (x : Context) : Parser Tree := do
  let first ← g.parse (.operand x)
  let more ← many (g.continuation x)
  return if more.isEmpty then first else .group (first :: more)

end Grammar

end ModuleAtlas.Script
