/-
ModuleAtlas/Json/Fault.lean

What is wrong with a text that is no data value, and where.
-/

namespace ModuleAtlas.Json

/-- Why a text is no data value. -/
inductive Reason where
  | value
  | propertyName
  | colon
  | comma
  | unterminated
  | control
  | escape
  | codePoint
  | extra
  | byteOrderMark
  /-- A whole number has more digits than are read. -/
  | tooLong (digits : Nat)
deriving DecidableEq, Repr, Inhabited

/-- How many digits a whole number has at most. -/
def mostDigits : Nat := 4300

/-- The words for a reason. -/
def Reason.words : Reason → String
  | .value => "Expecting value"
  | .propertyName => "Expecting property name enclosed in double quotes"
  | .colon => "Expecting ':' delimiter"
  | .comma => "Expecting ',' delimiter"
  | .unterminated => "Unterminated string starting at"
  | .control => "Invalid control character at"
  | .escape => "Invalid \\escape"
  | .codePoint => "Invalid \\uXXXX escape"
  | .extra => "Extra data"
  | .byteOrderMark => "Unexpected UTF-8 BOM (decode using utf-8-sig)"
  | .tooLong digits =>
    s!"Exceeds the limit ({mostDigits} digits) for integer string conversion: value has {digits} "
      ++ "digits; use sys.set_int_max_str_digits() to increase the limit"

/-- What is wrong with a text, at an offset in characters. -/
structure Fault where
  reason : Reason
  offset : Nat
deriving DecidableEq, Repr, Inhabited

/-- The line of an offset in a text, counted from one. -/
def lineAt (text : List Char) (offset : Nat) : Nat := 1 + (text.take offset).count '\n'

/-- The column of an offset in a text, counted from one. -/
def columnAt (text : List Char) (offset : Nat) : Nat :=
  1 + ((text.take offset).reverse.takeWhile (· != '\n')).length

/-- The words for a fault in a text.  They say where it is, unless a number is too long. -/
def Fault.message (text : List Char) (f : Fault) : String :=
  match f.reason with
  | .tooLong digits => Reason.words (.tooLong digits)
  | reason =>
    let line := lineAt text f.offset
    let column := columnAt text f.offset
    reason.words ++ s!": line {line} column {column} (char {f.offset})"

end ModuleAtlas.Json
