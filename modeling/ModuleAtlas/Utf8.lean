/-
ModuleAtlas/Utf8.lean

UTF-8: bytes to text, one byte at a time.  What is wrong with bytes that are no
text is said by where the bad piece starts, how many bytes it has, and why it is
bad; the piece ends before the first byte that rules it out.
-/

namespace ModuleAtlas.Utf8

/-- Why bytes are no text. -/
inductive Reason where
  /-- The byte cannot start a character. -/
  | start
  /-- The character is not continued as it should be. -/
  | continuation
  /-- The bytes end inside a character. -/
  | ending
deriving DecidableEq, Repr, Inhabited

/-- The words for a reason. -/
def Reason.words : Reason → String
  | .start => "invalid start byte"
  | .continuation => "invalid continuation byte"
  | .ending => "unexpected end of data"

/-- What is wrong with bytes that are no text. -/
structure Fault where
  /-- Where the bad piece starts. -/
  offset : Nat
  /-- How many bytes it has. -/
  count : Nat
  /-- Its first byte. -/
  byte : UInt8
  reason : Reason
deriving DecidableEq, Repr, Inhabited

/-- Two hexadecimal digits. -/
def hexByte (b : UInt8) : String :=
  String.ofList [Nat.digitChar (b.toNat / 16), Nat.digitChar (b.toNat % 16)]

/-- The words for a fault. -/
def Fault.message (f : Fault) : String :=
  let piece :=
    if f.count ≤ 1 then s!"byte 0x{hexByte f.byte} in position {f.offset}"
    else
      let last := f.offset + f.count - 1
      s!"bytes in position {f.offset}-{last}"
  "'utf-8' codec can't decode " ++ piece ++ ": " ++ f.reason.words

/-- How a character goes on behind its first byte. -/
structure Shape where
  /-- How many bytes are to come. -/
  left : Nat
  /-- The range of the next of them. -/
  low : UInt8
  high : UInt8
  /-- The value of the bits read so far. -/
  value : Nat
deriving DecidableEq, Repr, Inhabited

/-- How a character of more than one byte goes on behind its first byte, if the
byte can be one. -/
def shape? (b : UInt8) : Option Shape :=
  let n := b.toNat
  if n < 0xC2 then none
  else if n < 0xE0 then some ⟨1, 0x80, 0xBF, n - 0xC0⟩
  else if n < 0xF0 then
    some ⟨2, if n = 0xE0 then 0xA0 else 0x80, if n = 0xED then 0x9F else 0xBF, n - 0xE0⟩
  else if n < 0xF5 then
    some ⟨3, if n = 0xF0 then 0x90 else 0x80, if n = 0xF4 then 0x8F else 0xBF, n - 0xF0⟩
  else none

/-- Between characters, or inside one: its first byte, how many of its bytes were
read, and how it goes on. -/
inductive State where
  | between
  | inside (byte : UInt8) (taken : Nat) (shape : Shape)
deriving DecidableEq, Repr, Inhabited

/-- The text of the bytes from an offset on. -/
def run : State → Nat → List UInt8 → Except Fault (List Char)
  | .between, _, [] => .ok []
  | .inside byte taken _, offset, [] => .error ⟨offset - taken, taken, byte, .ending⟩
  | .between, offset, b :: rest =>
    if b < 0x80 then (run .between (offset + 1) rest).map (Char.ofNat b.toNat :: ·)
    else
      match shape? b with
      | some shape => run (.inside b 1 shape) (offset + 1) rest
      | none => .error ⟨offset, 1, b, .start⟩
  | .inside byte taken shape, offset, b :: rest =>
    if shape.low ≤ b && b ≤ shape.high then
      let value := shape.value * 64 + (b.toNat - 0x80)
      if shape.left ≤ 1 then (run .between (offset + 1) rest).map (Char.ofNat value :: ·)
      else run (.inside byte (taken + 1) ⟨shape.left - 1, 0x80, 0xBF, value⟩) (offset + 1) rest
    else .error ⟨offset - taken, taken, byte, .continuation⟩

/-- The text of some bytes. -/
def decode (bytes : List UInt8) : Except Fault (List Char) := run .between 0 bytes

/-- The character that stands for a bad piece. -/
def replacement : Char := '\uFFFD'

/-- The text of some bytes with a replacement for every bad piece, at most `fuel` of
them. -/
def decodeUpTo : Nat → List UInt8 → List Char
  | 0, _ => []
  | fuel + 1, bytes =>
    match decode bytes with
    | .ok text => text
    | .error f =>
      (decode (bytes.take f.offset)).toOption.getD []
        ++ replacement :: decodeUpTo fuel (bytes.drop (f.offset + f.count))

/-- The text of some bytes with a replacement for every bad piece. -/
def decodeLoosely (bytes : List UInt8) : List Char := decodeUpTo (bytes.length + 1) bytes

/-- The bytes of a text. -/
def encode (s : String) : List UInt8 := s.toUTF8.toList

end ModuleAtlas.Utf8
