/-
ModuleAtlas/Options/Checked.lean

Checking of given values.  A value is either accepted, or refused with all that is
wrong with it, each fault with the place where it is.
-/
import ModuleAtlas.Json.Value

namespace ModuleAtlas.Options

/-- What can be wrong with a value. -/
inductive Flaw where
  | notList
  | notText
  | notLayer
  | missing
  | noExtension
  | notWhole
  | fractional
  | notFinite
  | unreadableWhole
  | tooLong
  | tooSmall (least : Nat)
  | tooLarge (most : Nat)
  | notFlag
  | unreadableFlag
deriving DecidableEq, Repr, Inhabited

/-- The words for a flaw. -/
def Flaw.message : Flaw → String
  | .notList => "Input should be a valid list"
  | .notText => "Input should be a valid string"
  | .notLayer => "Input should be a valid dictionary or instance of LayerRule"
  | .missing => "Field required"
  | .noExtension => "Value error, at least one file extension is required"
  | .notWhole => "Input should be a valid integer"
  | .fractional => "Input should be a valid integer, got a number with a fractional part"
  | .notFinite => "Input should be a finite number"
  | .unreadableWhole => "Input should be a valid integer, unable to parse string as an integer"
  | .tooLong => "Unable to parse input string as an integer, exceeded maximum size"
  | .tooSmall least => s!"Input should be greater than or equal to {least}"
  | .tooLarge most => s!"Input should be less than or equal to {most}"
  | .notFlag => "Input should be a valid boolean"
  | .unreadableFlag => "Input should be a valid boolean, unable to interpret input"

/-- A flaw and the way to it from the outermost value. -/
structure Problem where
  place : List String
  flaw : Flaw
deriving DecidableEq, Repr, Inhabited

/-- The words for a problem. -/
def Problem.message (p : Problem) : String := ".".intercalate p.place ++ ": " ++ p.flaw.message

/-- The words for some problems. -/
def problemsMessage (ps : List Problem) : String := "; ".intercalate (ps.map Problem.message)

/-- An accepted value, or what is wrong with it. -/
inductive Checked (α : Type) where
  | accepted (a : α)
  | refused (problems : List Problem)
deriving Inhabited

namespace Checked

variable {α β : Type}

/-- A value with one flaw. -/
def refuse (flaw : Flaw) : Checked α := .refused [⟨[], flaw⟩]

/-- A function of an accepted value. -/
def map (f : α → β) : Checked α → Checked β
  | .accepted a => .accepted (f a)
  | .refused ps => .refused ps

/-- A further check of an accepted value. -/
def andThen (c : Checked α) (f : α → Checked β) : Checked β :=
  match c with
  | .accepted a => f a
  | .refused ps => .refused ps

/-- The value is found under a name. -/
def under (name : String) : Checked α → Checked α
  | .accepted a => .accepted a
  | .refused ps => .refused (ps.map fun p => { p with place := name :: p.place })

/-- A function and what it is applied to, with the problems of both. -/
def apply (f : Checked (α → β)) (a : Checked α) : Checked β :=
  match f, a with
  | .accepted f, .accepted a => .accepted (f a)
  | .refused ps, .accepted _ => .refused ps
  | .accepted _, .refused qs => .refused qs
  | .refused ps, .refused qs => .refused (ps ++ qs)

/-- All values of a list, each under its index. -/
def all (check : Json → Checked α) : Nat → List Json → Checked (List α)
  | _, [] => .accepted []
  | i, v :: rest =>
    apply ((under (toString i) (check v)).map List.cons) (all check (i + 1) rest)

/-- The value of a field, or a default where the field is missing. -/
def field (fields : List (String × Json)) (name : String) (fallback : Checked α)
    (check : Json → Checked α) : Checked α :=
  under name
    (match Json.field? fields name with
    | some v => check v
    | none => fallback)

/-- A text. -/
def text : Json → Checked String
  | .string s => .accepted s
  | _ => refuse .notText

/-- A text or nothing. -/
def textOrNone : Json → Checked (Option String)
  | .null => .accepted none
  | v => (text v).map some

/-- A list of texts. -/
def texts : Json → Checked (List String)
  | .array items => all text 0 items
  | _ => refuse .notList

end Checked

end ModuleAtlas.Options
