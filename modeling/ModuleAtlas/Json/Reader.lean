/-
ModuleAtlas/Json/Reader.lean

From text to data values.  The reader stops at the first fault.
-/
import ModuleAtlas.Json.Fault
import ModuleAtlas.Json.Value

namespace ModuleAtlas.Json

/-- What is left of a text, and where that starts. -/
structure Spot where
  rest : List Char
  offset : Nat
deriving Inhabited

namespace Spot

/-- So many characters further. -/
def drop (s : Spot) (n : Nat) : Spot := ⟨s.rest.drop n, s.offset + n⟩

/-- Behind the blanks. -/
def skip (s : Spot) : Spot :=
  s.drop (s.rest.takeWhile fun c => c == ' ' || c == '\t' || c == '\n' || c == '\r').length

/-- A fault right here. -/
def fault {α : Type} (s : Spot) (reason : Reason) : Except Fault α :=
  .error ⟨reason, s.offset⟩

end Spot

/-! ### Texts -/

/-- The value of a hexadecimal digit. -/
def hexDigit? (c : Char) : Option Nat :=
  if c.isDigit then some (c.toNat - '0'.toNat)
  else if 'a' ≤ c ∧ c ≤ 'f' then some (c.toNat - 'a'.toNat + 10)
  else if 'A' ≤ c ∧ c ≤ 'F' then some (c.toNat - 'A'.toNat + 10)
  else none

/-- The value of four hexadecimal digits at the front, provided that something
follows them. -/
def fourHex? : List Char → Option Nat
  | a :: b :: c :: d :: _ :: _ => do
    let a ← hexDigit? a
    let b ← hexDigit? b
    let c ← hexDigit? c
    let d ← hexDigit? d
    return ((a * 16 + b) * 16 + c) * 16 + d
  | _ => none

/-- What a plain escape stands for. -/
def plainEscape? : Char → Option Char
  | '"' => some '"'
  | '\\' => some '\\'
  | '/' => some '/'
  | 'b' => some '\x08'
  | 'f' => some '\x0c'
  | 'n' => some '\n'
  | 'r' => some '\r'
  | 't' => some '\t'
  | _ => none

/-- The character of two units of a pair. -/
def pairChar (high low : Nat) : Char :=
  Char.ofNat (0x10000 + (high - 0xD800) * 0x400 + (low - 0xDC00))

/-- The character of a single unit.  A unit of a pair that stands alone has none. -/
def unitChar (n : Nat) : Char := if 0xD800 ≤ n ∧ n ≤ 0xDFFF then '\uFFFD' else Char.ofNat n

/-- The character of an escape by code point, whose mark was read, and how many
characters it takes. -/
def codePoint (s : Spot) : Except Fault (Char × Nat) :=
  match fourHex? s.rest with
  | none => .error ⟨.codePoint, s.offset - 1⟩
  | some n =>
    match s.rest.drop 4 with
    | '\\' :: 'u' :: more =>
      if 0xD800 ≤ n ∧ n ≤ 0xDBFF ∧ 4 < more.length then
        match fourHex? more with
        | none => .error ⟨.codePoint, s.offset + 5⟩
        | some m =>
          if 0xDC00 ≤ m ∧ m ≤ 0xDFFF then .ok (pairChar n m, 10) else .ok (unitChar n, 4)
      else .ok (unitChar n, 4)
    | _ => .ok (unitChar n, 4)

/-- The characters of a text up to its closing quote; it was opened at `start`. -/
def textUpTo (start : Nat) : Nat → Spot → Except Fault (List Char × Spot)
  | 0, _ => .error ⟨.unterminated, start⟩
  | fuel + 1, s =>
    match s.rest with
    | [] => .error ⟨.unterminated, start⟩
    | '"' :: _ => .ok ([], s.drop 1)
    | '\\' :: more =>
      match more with
      | [] => .error ⟨.unterminated, start⟩
      | 'u' :: _ => do
        let (c, n) ← codePoint (s.drop 2)
        let (cs, left) ← textUpTo start fuel (s.drop (2 + n))
        return (c :: cs, left)
      | e :: _ =>
        match plainEscape? e with
        | none => s.fault .escape
        | some c => do
          let (cs, left) ← textUpTo start fuel (s.drop 2)
          return (c :: cs, left)
    | c :: _ =>
      if c.toNat < 32 then s.fault .control
      else do
        let (cs, left) ← textUpTo start fuel (s.drop 1)
        return (c :: cs, left)

/-- A text whose opening quote is the next character. -/
def text (s : Spot) : Except Fault (String × Spot) := do
  let (cs, left) ← textUpTo s.offset (s.rest.length + 1) (s.drop 1)
  return (String.ofList cs, left)

/-! ### Numbers -/

/-- The value of decimal digits. -/
def digitsValue (ds : List Char) : Nat :=
  ds.foldl (fun n d => 10 * n + (d.toNat - '0'.toNat)) 0

/-- The whole part of a number: zero, or digits that do not start with zero. -/
def wholePart (s : List Char) : List Char :=
  match s with
  | '0' :: _ => ['0']
  | _ => s.takeWhile Char.isDigit

/-- The fraction of a number, without its point, if there is one. -/
def fraction? : List Char → Option (List Char)
  | '.' :: rest =>
    let ds := rest.takeWhile Char.isDigit
    if ds.isEmpty then none else some ds
  | _ => none

/-- The exponent of a number, and how many characters it takes, if there is one. -/
def exponent? : List Char → Option (Int × Nat)
  | e :: rest =>
    if e == 'e' || e == 'E' then
      match rest with
      | '-' :: more => (digits more).map fun (n, k) => (-(n : Int), k + 2)
      | '+' :: more => (digits more).map fun (n, k) => ((n : Int), k + 2)
      | _ => (digits rest).map fun (n, k) => ((n : Int), k + 1)
    else none
  | [] => none
where
  /-- A run of digits. -/
  digits (s : List Char) : Option (Nat × Nat) :=
    let ds := s.takeWhile Char.isDigit
    if ds.isEmpty then none else some (digitsValue ds, ds.length)

/-- A number without its sign, and how many characters it takes. -/
def unsigned? (s : List Char) : Option ((Bool → Number) × Nat) :=
  let whole := wholePart s
  if whole.isEmpty then none
  else
    let rest := s.drop whole.length
    let frac := fraction? rest
    let taken := (frac.map fun f => f.length + 1).getD 0
    let exp := exponent? (rest.drop taken)
    let signed (negative : Bool) (n : Nat) : Int := if negative then -(n : Int) else n
    match frac, exp with
    | none, none => some (fun neg => .whole (signed neg (digitsValue whole)), whole.length)
    | _, _ =>
      let f := frac.getD []
      let (e, k) := exp.getD (0, 0)
      some (fun neg => .decimal (signed neg (digitsValue (whole ++ f))) (e - f.length),
        whole.length + taken + k)

/-- A number, and how many characters it takes. -/
def number? : List Char → Option (Number × Nat)
  | '-' :: rest => (unsigned? rest).map fun (f, n) => (f true, n + 1)
  | s => (unsigned? s).map fun (f, n) => (f false, n)

/-- The words that stand for a value. -/
def wordValues : List (String × Json) :=
  [("null", .null), ("true", .bool true), ("false", .bool false),
    ("NaN", .number .undefined), ("Infinity", .number (.infinite false)),
    ("-Infinity", .number (.infinite true))]

/-- A word or a number.  Of whole numbers only those are read that have not too many digits. -/
def plain (s : Spot) : Except Fault (Json × Spot) :=
  match wordValues.find? fun w => w.1.toList.isPrefixOf s.rest with
  | some (w, v) => .ok (v, s.drop w.length)
  | none =>
    match number? s.rest with
    | some (.whole n, k) =>
      let digits := (s.rest.take k).countP Char.isDigit
      if mostDigits < digits then s.fault (.tooLong digits)
      else .ok (.number (.whole n), s.drop k)
    | some (n, k) => .ok (.number n, s.drop k)
    | none => s.fault .value

/-! ### Arrays and objects -/

/-- The items of an array up to its closing bracket, each read by `value`. -/
def itemsUpTo (value : Spot → Except Fault (Json × Spot)) :
    Nat → Spot → Except Fault (List Json × Spot)
  | 0, s => s.fault .value
  | fuel + 1, s => do
    let (v, s) ← value s
    let s := s.skip
    match s.rest with
    | ']' :: _ => return ([v], s.drop 1)
    | ',' :: _ =>
      let (more, left) ← itemsUpTo value fuel (s.drop 1).skip
      return (v :: more, left)
    | _ => s.fault .comma

/-- The fields of an object up to its closing brace, behind those read before. -/
def fieldsUpTo (value : Spot → Except Fault (Json × Spot)) :
    Nat → List (String × Json) → Spot → Except Fault (List (String × Json) × Spot)
  | 0, _, s => s.fault .propertyName
  | fuel + 1, found, s => do
    match s.rest with
    | '"' :: _ =>
      let (name, s) ← text s
      let s := s.skip
      match s.rest with
      | ':' :: _ =>
        let (v, s) ← value (s.drop 1).skip
        let found := putField found name v
        let s := s.skip
        match s.rest with
        | '\x7d' :: _ => return (found, s.drop 1)
        | ',' :: _ => fieldsUpTo value fuel found (s.drop 1).skip
        | _ => s.fault .comma
      | _ => s.fault .colon
    | _ => s.fault .propertyName

/-- A value, with at most `depth` values around it. -/
def valueUpTo : Nat → Spot → Except Fault (Json × Spot)
  | 0, s => s.fault .value
  | depth + 1, s =>
    match s.rest with
    | '"' :: _ => do
      let (t, left) ← text s
      return (.string t, left)
    | '[' :: _ =>
      let s := (s.drop 1).skip
      match s.rest with
      | ']' :: _ => .ok (.array [], s.drop 1)
      | _ => do
        let (items, left) ← itemsUpTo (valueUpTo depth) (s.rest.length + 1) s
        return (.array items, left)
    | '\x7b' :: _ =>
      let s := (s.drop 1).skip
      match s.rest with
      | '\x7d' :: _ => .ok (.object [], s.drop 1)
      | _ => do
        let (fields, left) ← fieldsUpTo (valueUpTo depth) (s.rest.length + 1) [] s
        return (.object fields, left)
    | _ => plain s

/-- The value of a text. -/
def parse (s : List Char) : Except Fault Json :=
  if s.head? == some '\uFEFF' then .error ⟨.byteOrderMark, 0⟩
  else do
    let (v, left) ← valueUpTo (s.length + 1) (Spot.mk s 0).skip
    let left := left.skip
    if left.rest.isEmpty then return v else left.fault .extra

end ModuleAtlas.Json
