/-
ModuleAtlas/Json/Value.lean

Data values.  The fields of an object keep the order in which they were first
written; a name that is written again gets the later value in the earlier place.
-/

namespace ModuleAtlas

/-- A number as it is written: a whole number, or a decimal `mantissa * 10 ^ power`
with a fraction or an exponent, or one of the values that are no numbers. -/
inductive Json.Number where
  | whole (n : Int)
  | decimal (mantissa : Int) (power : Int)
  | infinite (negative : Bool)
  | undefined
deriving DecidableEq, Repr, Inhabited

/-- A data value. -/
inductive Json where
  | null
  | bool (b : Bool)
  | number (n : Json.Number)
  | string (s : String)
  | array (items : List Json)
  | object (fields : List (String × Json))
deriving Inhabited

namespace Json

/-! ### Numbers -/

/-- The quotient rounded to the nearest whole number, a half to the even one. -/
def roundedQuotient (a b : Nat) : Nat :=
  let q := a / b
  let r := a % b
  if 2 * r < b then q
  else if b < 2 * r then q + 1
  else if q % 2 = 0 then q else q + 1

/-- A quotient as the nearest number with at most 53 binary digits, whose last digit
weighs no less than `2 ^ (-1074)`: a whole number and a power of two. -/
def nearestBinary (a b : Nat) : Nat × Int :=
  let size : Int := (Nat.log2 a : Int) - (Nat.log2 b : Int)
  let fit (e : Int) : Nat :=
    if 0 ≤ e then roundedQuotient a (b <<< e.toNat) else roundedQuotient (a <<< (-e).toNat) b
  let e := max (size - 52) (-1074)
  let q := fit e
  if 1 <<< 53 ≤ q then (fit (e + 1), e + 1)
  else if q < 1 <<< 52 && -1074 < e then (fit (e - 1), e - 1)
  else (q, e)

/-- The size of a decimal as a quotient. -/
def decimalQuotient (mantissa power : Int) : Nat × Nat :=
  if 0 ≤ power then (mantissa.natAbs * Nat.pow 10 power.toNat, 1)
  else (mantissa.natAbs, Nat.pow 10 (-power).toNat)

/-- The size of a decimal as a binary number. -/
def decimalBinary (mantissa power : Int) : Nat × Int :=
  if mantissa = 0 then (0, 0)
  else
    let (a, b) := decimalQuotient mantissa power
    nearestBinary a b

/-- The decimal counts as zero. -/
def isZeroDecimal (mantissa power : Int) : Bool := (decimalBinary mantissa power).1 == 0

/-- The decimal as a whole number, if it counts as one. -/
def wholeDecimal? (mantissa power : Int) : Option Int :=
  let (q, e) := decimalBinary mantissa power
  let sign : Int := if mantissa < 0 then -1 else 1
  if 0 ≤ e then some (sign * ((q <<< e.toNat : Nat) : Int))
  else if q % (1 <<< (-e).toNat) = 0 then some (sign * ((q >>> (-e).toNat : Nat) : Int))
  else none

/-! ### Objects -/

/-- The value of a field. -/
def field? (fields : List (String × Json)) (name : String) : Option Json :=
  (fields.find? fun f => f.1 == name).map Prod.snd

/-- The value of a field, or the null value. -/
def field (fields : List (String × Json)) (name : String) : Json := (field? fields name).getD .null

/-- One more field, or a new value for one that is there. -/
def putField (fields : List (String × Json)) (name : String) (value : Json) :
    List (String × Json) :=
  if fields.any fun f => f.1 == name then
    fields.map fun f => if f.1 == name then (name, value) else f
  else fields ++ [(name, value)]

/-! ### Values -/

/-- The value counts as something. -/
def isTruthy : Json → Bool
  | .null => false
  | .bool b => b
  | .number (.whole n) => n ≠ 0
  | .number (.decimal m p) => !isZeroDecimal m p
  | .number _ => true
  | .string s => !s.isEmpty
  | .array items => !items.isEmpty
  | .object fields => !fields.isEmpty

/-- The text of a value that is a text. -/
def text? : Json → Option String
  | .string s => some s
  | _ => none

/-- The text of a value that is a text and not empty. -/
def fullText? : Json → Option String
  | .string s => if s.isEmpty then none else some s
  | _ => none

end Json

end ModuleAtlas
