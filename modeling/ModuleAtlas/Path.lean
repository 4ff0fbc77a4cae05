/-
ModuleAtlas/Path.lean

Paths as texts: segments between slashes, an absolute path starting with one.

`normalize` removes what does not move (empty segments and single dots) and
resolves the segments that step back; `relative` goes from one absolute path to
another; `join` puts them together again.
-/
import ModuleAtlas.Text.Blank

namespace ModuleAtlas.Path

/-- The segment that stays where it is. -/
def here : List Char := ['.']

/-- The segment that steps back. -/
def back : List Char := ['.', '.']

/-- The segments of a path, empty ones included. -/
def segments (s : List Char) : List (List Char) := Text.split '/' s

/-- Segments with slashes between them. -/
def ofSegments (parts : List (List Char)) : List Char := Text.joinWith ['/'] parts

/-- Backslashes become slashes. -/
def slashed (s : String) : String :=
  String.ofList (s.toList.map fun c => if c == '\\' then '/' else c)

/-! ### Normal form -/

/-- The slashes that an absolute path keeps in front: two where exactly two stand
there, otherwise one. -/
def leadingSlashes : List Char → Nat
  | '/' :: '/' :: '/' :: _ => 1
  | '/' :: '/' :: _ => 2
  | '/' :: _ => 1
  | _ => 0

/-- One further segment behind those kept so far, the last of them first. -/
def pushSegment (absolute : Bool) (kept : List (List Char)) (part : List Char) :
    List (List Char) :=
  if part = [] ∨ part = here then kept
  else if part ≠ back then part :: kept
  else
    match kept with
    | [] => if absolute then [] else [back]
    | last :: before => if last = back then back :: kept else before

/-- The segments that are left in normal form. -/
def normalSegments (absolute : Bool) (parts : List (List Char)) : List (List Char) :=
  (parts.foldl (pushSegment absolute) []).reverse

/-- The normal form of a path. -/
def normalize (s : String) : String :=
  let cs := s.toList
  let n := leadingSlashes cs
  let body := List.replicate n '/' ++ ofSegments (normalSegments (0 < n) (segments cs))
  String.ofList (if body.isEmpty then here else body)

/-! ### Joining and taking apart -/

/-- The path is absolute. -/
def isAbsolute (s : String) : Bool := s.toList.head? == some '/'

/-- The second path seen from the first. -/
def join (a b : String) : String :=
  if isAbsolute b then b
  else if a.isEmpty || a.toList.getLast? == some '/' then a ++ b
  else a ++ "/" ++ b

/-- The path as an absolute one in normal form, seen from a folder. -/
def absolute (current s : String) : String := normalize (join current s)

/-- Without the slashes at the end. -/
def trimSlashes (s : List Char) : List Char := (s.reverse.dropWhile (· == '/')).reverse

/-- The folder of a path: what stands before its last slash. -/
def folder (s : String) : String :=
  let head := (s.toList.reverse.dropWhile (· != '/')).reverse
  let bare := trimSlashes head
  String.ofList (if bare.isEmpty then head else bare)

/-- The last segment of a path. -/
def name (s : String) : String :=
  String.ofList (s.toList.reverse.takeWhile (· != '/')).reverse

/-- A path cut before the suffix of its last segment.  Dots in front of a segment
start no suffix. -/
def splitSuffix (s : String) : String × String :=
  let cs := s.toList
  let last := (cs.reverse.takeWhile (· != '/')).reverse
  let tail := (last.reverse.takeWhile (· != '.')).reverse
  let stem := last.take (last.length - tail.length - 1)
  if last.contains '.' && stem.any (· != '.') then
    let n := cs.length - tail.length - 1
    (String.ofList (cs.take n), String.ofList (cs.drop n))
  else (s, "")

/-! ### From one path to another -/

/-- The segments of an absolute path that move. -/
def steps (s : String) : List (List Char) := (segments (normalize s).toList).filter (· ≠ [])

/-- How many segments two paths share at their start. -/
def shared : List (List Char) → List (List Char) → Nat
  | a :: as, b :: bs => if a = b then 1 + shared as bs else 0
  | _, _ => 0

/-- The way from an absolute folder to an absolute path. -/
def way (start target : List (List Char)) : List (List Char) :=
  let n := shared start target
  List.replicate (start.length - n) back ++ target.drop n

/-- An absolute path as seen from an absolute folder, with slashes only. -/
def relative (target start : String) : String :=
  let parts := way (steps start) (steps target)
  slashed (String.ofList (if parts.isEmpty then here else ofSegments parts))

/-- What is wrong with a text that is given for a path. -/
inductive Fault where
  | empty
deriving DecidableEq, Repr

/-- The words for a fault. -/
def Fault.message : Fault → String
  | .empty => "no path specified"

/-- A given text as a path seen from an absolute folder.  An empty text is no path. -/
def relativeOf (target start : String) : Except Fault String :=
  if target = "" then .error .empty else .ok (relative target start)

/-! ### Plain paths

A plain path is one whose empty segments and single dots are left out, while
segments that step back stay. -/

/-- The parts of a plain path: its leading slashes, if any, and its segments. -/
def parts (s : String) : List (List Char) :=
  let cs := s.toList
  let n := leadingSlashes cs
  let moving := (segments cs).filter fun p => p ≠ [] && p ≠ here
  if 0 < n then List.replicate n '/' :: moving else moving

/-- The text of a plain path. -/
def plain (s : String) : String :=
  let cs := s.toList
  let n := leadingSlashes cs
  let body :=
    List.replicate n '/' ++ ofSegments ((segments cs).filter fun p => p ≠ [] && p ≠ here)
  String.ofList (if body.isEmpty then here else body)

/-- The parts of a path below a folder, if it lies there.  No absolute path lies below
the folder without a name. -/
def below? (root path : String) : Option (List (List Char)) :=
  let r := parts root
  let p := parts path
  if r.isPrefixOf p && !(r.isEmpty && isAbsolute path) then some (p.drop r.length) else none

/-- The last segment of a plain path, if it has one. -/
def lastPart (s : String) : List Char :=
  let cs := s.toList
  ((segments cs).filter fun p => p ≠ [] && p ≠ here).getLast?.getD []

end ModuleAtlas.Path
