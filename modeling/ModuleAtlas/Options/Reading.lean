/-
ModuleAtlas/Options/Reading.lean

Options from given values and from the environment.
-/
import ModuleAtlas.Options.Basic
import ModuleAtlas.Options.Checked
import ModuleAtlas.Text.Blank
import ModuleAtlas.Text.Case

namespace ModuleAtlas.Options

/-! ### Extensions -/

/-- An extension in lower case with its dot; none if nothing is given. -/
def extension? (s : String) : Option String :=
  match (Text.lower (String.ofList (Text.trim s.toList))).toList with
  | [] => none
  | '.' :: rest => some (String.ofList ('.' :: rest))
  | s => some (String.ofList ('.' :: s))

/-- The elements of a list, each once, in the order of their first occurrence. -/
def distinct (xs : List String) : List String :=
  xs.foldl (fun found x => if found.contains x then found else found ++ [x]) []

/-- Extensions; one at least. -/
def checkExtensions (v : Json) : Checked (List String) :=
  (Checked.texts v).andThen fun given =>
    let found := distinct (given.filterMap extension?)
    if found.isEmpty then Checked.refuse .noExtension else .accepted found

/-! ### Whole numbers -/

/-- Space around a number that is written as a text. -/
def isOuterSpace (c : Char) : Bool := Text.isBlank c && !(28 ≤ c.toNat && c.toNat ≤ 31)

/-- Without space around. -/
def withoutSpace (s : List Char) : List Char :=
  ((s.dropWhile isOuterSpace).reverse.dropWhile isOuterSpace).reverse

/-- Without the zeros in front, low lines between them included.  `last` is the
character in front. -/
def withoutZeros (last : Char) : List Char → Option (List Char)
  | [] => some [last]
  | c :: rest =>
    if c == '0' || c == '_' then withoutZeros c rest
    else if c.isDigit then some (c :: rest)
    else if c == '.' then some (last :: c :: rest)
    else none

/-- Without a fraction of zeros. -/
def withoutFraction (s : List Char) : List Char :=
  let whole := s.takeWhile (· != '.')
  if (s.drop (whole.length + 1)).all (· == '0') then whole else s

/-- Without the low lines between digits; where they stand otherwise they stay. -/
def withoutLines (s : List Char) : List Char :=
  let pieces := Text.split '_' s
  if pieces.all (· ≠ []) then pieces.flatten else s

/-- The value of digits. -/
def digits? (s : List Char) : Option Nat :=
  if s.isEmpty || !s.all Char.isDigit then none
  else some (s.foldl (fun n d => 10 * n + (d.toNat - '0'.toNat)) 0)

/-- The value of a number without its sign. -/
def unsigned? : List Char → Option Nat
  | '0' :: rest => do digits? (withoutLines (withoutFraction (← withoutZeros '0' rest)))
  | c :: rest => if c.isDigit then digits? (withoutLines (withoutFraction (c :: rest))) else none
  | [] => none

/-- The value of a number that is written as a text. -/
def wholeOfText? (s : String) : Option Int :=
  match withoutSpace s.toList with
  | '-' :: rest => (unsigned? rest).map fun n => -(n : Int)
  | '+' :: rest => (unsigned? rest).map Int.ofNat
  | rest => (unsigned? rest).map Int.ofNat

/-- The number fits into 64 bits. -/
def isShort (n : Int) : Bool := -9223372036854775808 < n && n < 9223372036854775808

/-- A whole number. -/
def whole : Json → Checked Int
  | .bool b => .accepted (if b then 1 else 0)
  | .number (.whole n) => .accepted n
  | .number (.decimal m p) =>
    match Json.wholeDecimal? m p with
    | some n => if isShort n then .accepted n else Checked.refuse .tooLong
    | none => Checked.refuse .fractional
  | .number _ => Checked.refuse .notFinite
  | .string s =>
    match wholeOfText? s with
    | some n => .accepted n
    | none => Checked.refuse .unreadableWhole
  | _ => Checked.refuse .notWhole

/-- How many files can be read at a time: from one to sixty-four. -/
def checkWorkers (v : Json) : Checked Nat :=
  (whole v).andThen fun n =>
    if n < 1 then Checked.refuse (.tooSmall 1)
    else if 64 < n then Checked.refuse (.tooLarge 64)
    else .accepted n.toNat

/-! ### Flags -/

/-- The words that stand for no, and for yes. -/
def flagWords : List (String × Bool) :=
  [("0", false), ("off", false), ("f", false), ("false", false), ("n", false), ("no", false),
    ("1", true), ("on", true), ("t", true), ("true", true), ("y", true), ("yes", true)]

/-- The flag of a number. -/
def flagOfWhole (n : Int) : Checked Bool :=
  if n = 0 then .accepted false
  else if n = 1 then .accepted true
  else Checked.refuse .unreadableFlag

/-- A flag. -/
def flag : Json → Checked Bool
  | .bool b => .accepted b
  | .number (.whole n) => if isShort n then flagOfWhole n else Checked.refuse .notFlag
  | .number (.decimal m p) =>
    match Json.wholeDecimal? m p with
    | some n => if isShort n then flagOfWhole n else Checked.refuse .notFlag
    | none => Checked.refuse .notFlag
  | .string s =>
    match flagWords.find? fun w => w.1 == String.ofList (s.toList.map Char.toLower) with
    | some (_, b) => .accepted b
    | none => Checked.refuse .unreadableFlag
  | _ => Checked.refuse .notFlag

/-! ### Layers -/

/-- The rule of a layer. -/
def layer : Json → Checked LayerRule
  | .object fields =>
    let name := Checked.field fields "name" (Checked.refuse .missing) Checked.text
    let description := Checked.field fields "description" (.accepted "") Checked.text
    let paths := Checked.field fields "paths" (.accepted []) Checked.texts
    let dependsOn := Checked.field fields "depends_on" (.accepted []) Checked.texts
    (((name.map LayerRule.mk).apply description).apply paths).apply dependsOn
  | _ => Checked.refuse .notLayer

/-- Rules of layers, or nothing. -/
def checkLayers : Json → Checked (Option (List LayerRule))
  | .null => .accepted none
  | .array items => (Checked.all layer 0 items).map some
  | _ => Checked.refuse .notList

/-! ### Options -/

/-- Options from given fields; other fields do not count. -/
def ofFields (fields : List (String × Json)) : Checked Options :=
  let d : Options := {}
  let extensions := Checked.field fields "extensions" (.accepted d.extensions) checkExtensions
  let exclude := Checked.field fields "exclude_patterns" (.accepted d.exclude) Checked.texts
  let includeTests := Checked.field fields "include_tests" (.accepted d.includeTests) flag
  let tsconfig := Checked.field fields "tsconfig_path" (.accepted d.tsconfig) Checked.textOrNone
  let workers := Checked.field fields "max_workers" (.accepted d.workers) checkWorkers
  let entryPaths := Checked.field fields "entry_paths" (.accepted d.entryPaths) Checked.texts
  let layers := Checked.field fields "layers" (.accepted d.layers) checkLayers
  ((((((extensions.map Options.mk).apply exclude).apply includeTests).apply tsconfig).apply
    workers).apply entryPaths).apply layers

/-- The items of a list that is written as a text with commas. -/
def commaList (s : String) : List Json :=
  (((Text.split ',' s.toList).map Text.trim).filter (· ≠ [])).map (.string <| String.ofList ·)

/-- The field of a variable that holds a list, unless it is empty. -/
def listVariable (env : String → Option String) (key name : String) :
    List (String × Json) :=
  match (env key).map commaList with
  | some (v :: vs) => [(name, .array (v :: vs))]
  | _ => []

/-- The field of a variable that holds a text, unless it is empty. -/
def textVariable (env : String → Option String) (key name : String) :
    List (String × Json) :=
  match env key with
  | some s => if s.isEmpty then [] else [(name, .string s)]
  | none => []

/-- Words that turn tests on. -/
def testWords : List String := ["1", "true", "yes", "on"]

/-- The fields that the environment gives. -/
def environmentFields (env : String → Option String) : List (String × Json) :=
  listVariable env "MODGRAPH_EXTENSIONS" "extensions"
    ++ listVariable env "MODGRAPH_EXCLUDE" "exclude_patterns"
    ++ listVariable env "MODGRAPH_ENTRY_PATHS" "entry_paths"
    ++ (match env "MODGRAPH_INCLUDE_TESTS" with
      | some s =>
        [("include_tests",
          .bool (testWords.contains (Text.lower (String.ofList (Text.trim s.toList)))))]
      | none => [])
    ++ textVariable env "MODGRAPH_TSCONFIG" "tsconfig_path"
    ++ textVariable env "MODGRAPH_MAX_WORKERS" "max_workers"

/-- Options from the environment. -/
def ofEnvironment (env : String → Option String) : Checked Options :=
  ofFields (environmentFields env)

end ModuleAtlas.Options
