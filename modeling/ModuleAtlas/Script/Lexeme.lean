/-
ModuleAtlas/Script/Lexeme.lean

The lexemes of a script, each as a function from the text that is left to the
number of characters that the lexeme takes there, or to `none` where no such
lexeme starts.

A lexeme that can hold escapes is read with a counter of characters that are
already known to belong to it, so that every function here runs down its list
one character at a time.
-/

namespace ModuleAtlas.Script

/-- Space between lexemes. -/
def isGap (c : Char) : Bool :=
  let n := c.toNat
  (9 ≤ n && n ≤ 13) || n == 32 || n == 0xA0 || n == 0x1680 || (0x2000 ≤ n && n ≤ 0x200B)
    || n == 0x2028 || n == 0x2029 || n == 0x202F || n == 0x205F || n == 0x2060 || n == 0x3000
    || n == 0xFEFF

/-- The characters that mean something by themselves and so end a word. -/
def isMark (c : Char) : Bool :=
  ":;`\"'@#.,|^&<=>+-*/\\%?!~()[]\x7b\x7d".toList.contains c

/-- The character can stand inside a word. -/
def isWordPart (c : Char) : Bool := 32 ≤ c.toNat && !isGap c && !isMark c

/-- The character can start a word. -/
def isWordStart (c : Char) : Bool := isWordPart c && !c.isDigit

/-- A hexadecimal digit. -/
def isHex (c : Char) : Bool :=
  c.isDigit || ('a' ≤ c && c ≤ 'f') || ('A' ≤ c && c ≤ 'F')

/-- An octal digit. -/
def isOctal (c : Char) : Bool := '0' ≤ c && c ≤ '7'

/-! ### Escapes -/

/-- What follows the backslash of an escape of one code point: four hexadecimal
digits after `u`, or any number of them in braces. -/
def codePointEscape : List Char → Option Nat
  | 'u' :: '\x7b' :: rest =>
    let digits := rest.takeWhile isHex
    match digits, rest.drop digits.length with
    | _ :: _, '\x7d' :: _ => some (digits.length + 3)
    | _, _ => none
  | 'u' :: a :: b :: c :: d :: _ =>
    if isHex a && isHex b && isHex c && isHex d then some 5 else none
  | _ => none

/-- What follows the backslash of an escape in a string or a template. -/
def textEscape : List Char → Option Nat
  | 'u' :: rest => codePointEscape ('u' :: rest)
  | 'x' :: a :: b :: _ => if isHex a && isHex b then some 3 else none
  | '\r' :: '\n' :: _ => some 2
  | '\r' :: '\u2028' :: _ => some 2
  | '\r' :: '\u2029' :: _ => some 2
  | c :: rest =>
    if isOctal c then some (1 + ((rest.takeWhile isOctal).take 2).length)
    else if c == 'x' then none
    else some 1
  | [] => none

/-! ### Words -/

/-- The rest of a word, of which `known` further characters are certain. -/
def wordTail (known : Nat) : List Char → Nat
  | [] => 0
  | c :: rest =>
    match known with
    | k + 1 => 1 + wordTail k rest
    | 0 =>
      if isWordPart c then 1 + wordTail 0 rest
      else if c == '\\' then
        match codePointEscape rest with
        | some k => 1 + wordTail k rest
        | none => 0
      else 0

/-- A word: a name or a keyword. -/
def wordLength? : List Char → Option Nat
  | [] => none
  | c :: rest =>
    if isWordStart c then some (1 + wordTail 0 rest)
    else if c == '\\' then (codePointEscape rest).map fun k => 1 + wordTail k rest
    else none

/-- A private name: a number sign and a word. -/
def privateLength? : List Char → Option Nat
  | '#' :: rest => (wordLength? rest).map (1 + ·)
  | _ => none

/-! ### Gaps and comments -/

/-- The character ends a line comment. -/
def endsRemark (c : Char) : Bool :=
  c == '\n' || c == '\r' || c == '\u2028' || c == '\u2029'

/-- The length of a block comment's text up to and with its end. -/
def blockRemark : List Char → Option Nat
  | [] => none
  | '*' :: '/' :: _ => some 2
  | _ :: rest => (blockRemark rest).map (1 + ·)

/-- A comment, to the end of its line or in block form. -/
def commentLength? : List Char → Option Nat
  | '/' :: '/' :: rest => some (2 + (rest.takeWhile fun c => !endsRemark c).length)
  | '/' :: '*' :: rest => (blockRemark rest).map (2 + ·)
  | _ => none

/-- Space that a markup comment and the end of a statement read over. -/
def isSpace (c : Char) : Bool :=
  let n := c.toNat
  (9 ≤ n && n ≤ 13) || n == 32 || n == 0x1680 || (0x2000 ≤ n && n ≤ 0x2006)
    || (0x2008 ≤ n && n ≤ 0x200A) || n == 0x2028 || n == 0x2029 || n == 0x205F || n == 0x3000

/-- The rest of a markup comment's line. -/
def markupLine (s : List Char) : Nat :=
  (s.takeWhile fun c => c != '\n' && c != '\u2028' && c != '\u2029').length

/-- A comment as pages of markup have it, to the end of its line. -/
def markupLength? : List Char → Option Nat
  | '<' :: '!' :: '-' :: '-' :: rest => some (4 + markupLine rest)
  | '-' :: '-' :: '>' :: rest => some (3 + markupLine rest)
  | _ => none

/-- The gap in front, without comments. -/
def gapLength (s : List Char) : Nat := (s.takeWhile isGap).length

/-- Gaps and comments, of which `known` characters are certain. -/
def spacingTail (known : Nat) : List Char → Nat
  | [] => 0
  | c :: rest =>
    match known with
    | k + 1 => 1 + spacingTail k rest
    | 0 =>
      if isGap c then 1 + spacingTail 0 rest
      else
        match commentLength? (c :: rest) with
        | some k => 1 + spacingTail (k - 1) rest
        | none => 0

/-- All gaps and comments in front. -/
def spacing (s : List Char) : Nat := spacingTail 0 s

/-! ### Numbers -/

/-- Digits that follow a digit, single low lines between them allowed. -/
def moreDigits (digit : Char → Bool) (known : Nat) : List Char → Nat
  | [] => 0
  | c :: rest =>
    match known with
    | k + 1 => 1 + moreDigits digit k rest
    | 0 =>
      if digit c then 1 + moreDigits digit 0 rest
      else if c == '_' && (rest.head?.map digit).getD false then 1 + moreDigits digit 1 rest
      else 0

/-- A run of digits. -/
def digits? (digit : Char → Bool) : List Char → Option Nat
  | c :: rest => if digit c then some (1 + moreDigits digit 0 rest) else none
  | [] => none

/-- The exponent of a number, or nothing. -/
def exponent : List Char → Nat
  | e :: rest =>
    if e == 'e' || e == 'E' then
      match rest with
      | s :: more =>
        if s == '+' || s == '-' then ((digits? Char.isDigit more).map (2 + ·)).getD 0
        else ((digits? Char.isDigit rest).map (1 + ·)).getD 0
      | [] => 0
    else 0
  | [] => 0

/-- A whole number with the mark of a big integer, if it is there. -/
def withBig (n : Nat) (s : List Char) : Nat :=
  if (s.drop n).head? == some 'n' then n + 1 else n

/-- A decimal number that starts with a digit. -/
def decimal (n : Nat) (s : List Char) : Nat :=
  match s.drop n with
  | '.' :: rest =>
    let k := (digits? Char.isDigit rest).getD 0
    n + 1 + k + exponent (rest.drop k)
  | rest =>
    let k := exponent rest
    if k == 0 then withBig n s else n + k

/-- A number after a leading zero and the letter of its base. -/
def based (digit : Char → Bool) (s rest : List Char) : Nat :=
  match digits? digit rest with
  | some k => withBig (2 + k) s
  | none => 1

/-- A number in any of its forms. -/
def numberLength? (s : List Char) : Option Nat :=
  match s with
  | '0' :: 'x' :: rest => some (based isHex s rest)
  | '0' :: 'X' :: rest => some (based isHex s rest)
  | '0' :: 'b' :: rest => some (based (fun c => c == '0' || c == '1') s rest)
  | '0' :: 'B' :: rest => some (based (fun c => c == '0' || c == '1') s rest)
  | '0' :: 'o' :: rest => some (based isOctal s rest)
  | '0' :: 'O' :: rest => some (based isOctal s rest)
  | '.' :: rest => (digits? Char.isDigit rest).map fun k => 1 + k + exponent (rest.drop k)
  | _ => (digits? Char.isDigit s).map fun n => decimal n s

/-! ### Quoted text -/

/-- The rest of a string in front of which its quote was read.  A line break
ends the text; after it only spacing may stand before the closing quote. -/
def stringTail (quote : Char) (known : Nat) : List Char → Option Nat
  | [] => none
  | c :: rest =>
    match known with
    | k + 1 => (stringTail quote k rest).map (1 + ·)
    | 0 =>
      if c == quote then some 1
      else if c == '\\' then
        match textEscape rest with
        | some k => (stringTail quote k rest).map (1 + ·)
        | none => none
      else if c == '\n' || c == '\r' then
        let n := spacing (c :: rest)
        if ((c :: rest).drop n).head? == some quote then some (n + 1) else none
      else (stringTail quote 0 rest).map (1 + ·)

/-- A string in single or double quotes. -/
def stringLength? : List Char → Option Nat
  | c :: rest => if c == '"' || c == '\'' then (stringTail c 0 rest).map (1 + ·) else none
  | [] => none

/-- Template text up to a substitution or the closing mark. -/
def templateText (known : Nat) : List Char → Option Nat
  | [] => none
  | c :: rest =>
    match known with
    | k + 1 => (templateText k rest).map (1 + ·)
    | 0 =>
      if c == '`' || (c == '$' && rest.head? == some '\x7b') then some 0
      else if c == '\\' then
        match textEscape rest with
        | some k => (templateText k rest).map (1 + ·)
        | none => none
      else (templateText 0 rest).map (1 + ·)

/-! ### Regular expressions -/

/-- The rest of a regular expression up to and with its closing slash.  Inside
brackets a slash does not close it. -/
def regexTail (bracket : Bool) (known : Nat) : List Char → Option Nat
  | [] => none
  | c :: rest =>
    match known with
    | k + 1 => (regexTail bracket k rest).map (1 + ·)
    | 0 =>
      if c == '\n' then none
      else if c == '\\' then
        match rest with
        | d :: _ => if d == '\n' then none else (regexTail bracket 1 rest).map (1 + ·)
        | [] => none
      else if bracket then (regexTail (c != ']') 0 rest).map (1 + ·)
      else if c == '/' then some 1
      else (regexTail (c == '[') 0 rest).map (1 + ·)

/-- A regular expression with its flags. -/
def regexLength? : List Char → Option Nat
  | '/' :: rest =>
    match rest with
    | '/' :: _ => none
    | _ =>
      (regexTail false 0 rest).map fun k =>
        1 + k + ((rest.drop k).takeWhile fun c => 'a' ≤ c && c ≤ 'z').length
  | _ => none

end ModuleAtlas.Script
