/-
ModuleAtlas/Report.lean

The report on an analysis, as a list of things to print.
-/
import ModuleAtlas.Analysis.Project
import ModuleAtlas.Options.Reading

namespace ModuleAtlas

/-- One thing to print. -/
inductive Block where
  | text (markup : String)
  | panel (body title border : String)
  | table (title : String) (columns : List String) (rows : List (List String))
deriving DecidableEq, Repr, Inhabited

/-- The markup that may follow an opening bracket, up to and with the closing one. -/
def Block.afterTag? (rest : List Char) : Option (List Char) :=
  match rest with
  | c :: _ =>
    let tail := rest.dropWhile fun c => c != '[' && c != ']'
    if (c.isLower || c == '/') && tail.head? == some ']' then some (tail.drop 1) else none
  | [] => none

/-- A text without the tags of its markup; `fuel` is its length. -/
def Block.bare (fuel : Nat) (text : List Char) : List Char :=
  match fuel, text with
  | fuel + 1, '[' :: rest =>
    match afterTag? rest with
    | some tail => bare fuel tail
    | none => '[' :: bare fuel rest
  | fuel + 1, c :: rest => c :: bare fuel rest
  | _, text => text

/-- The block as lines of plain text. -/
def Block.lines (b : Block) : List String :=
  let unmarked (s : String) := String.ofList (bare s.length s.toList)
  match b with
  | .text markup => [unmarked markup]
  | .panel body title _ => [title, unmarked body, ""]
  | .table title columns rows =>
    [title, " | ".intercalate columns] ++ rows.map (fun r => unmarked (" | ".intercalate r)) ++ [""]

namespace Report

/-- How many rows a table has at most. -/
def mostRows : Nat := 20

/-- Texts with commas between them, or a dash. -/
def listed (xs : List String) : String := if xs.isEmpty then "-" else ", ".intercalate xs

/-- Texts with arrows between them. -/
def chained (xs : List String) : String := " → ".intercalate xs

/-- What the project is, and how many milliseconds its analysis took. -/
def summary (a : Analysis) (took : Nat) : Block :=
  let files := a.graph.nodes.length
  let edges := a.graph.edgeCount
  let entries := a.entryPoints.length
  .panel
    ("[bold]" ++ a.package.name ++ "[/bold] " ++ a.package.version ++ "\n"
      ++ s!"files: {files}   internal edges: {edges}   entry points: {entries}\n"
      ++ "pattern: " ++ a.architecture.layout.label ++ s!"   took {took} ms")
    "📦 Module Graph" "cyan"

/-- Rows with their numbers in front. -/
def numbered : Nat → List String → List (List String)
  | _, [] => []
  | n, x :: rest => [toString n, x] :: numbered (n + 1) rest

/-- The cycles. -/
def cycles (a : Analysis) : Block :=
  let found := a.insights.cycles
  if found.isEmpty then .text "[green]🔁 No circular dependencies[/green]"
  else
    let count := found.length
    .table s!"🔁 Circular dependencies ({count})" ["#", "cycle"]
      (numbered 1 ((found.take mostRows).map chained))

/-- The exports that no file uses. -/
def unused (a : Analysis) : List Block :=
  let found := a.insights.unused
  if found.isEmpty then []
  else
    let count := found.length
    [.table s!"🧹 Unused exports ({count})" ["file", "export", "kind"]
      ((found.take mostRows).map fun u => [u.file, u.name, u.kind.label])]

/-- The packages. -/
def packages (a : Analysis) : Block :=
  .table "📚 Dependency audit" ["category", "packages"]
    [["unused", listed a.audit.unused], ["unlisted", listed a.audit.unlisted],
      ["misplaced", listed a.audit.misplaced]]

/-- A chain of files, or a dash. -/
def chainedOrDash (xs : List String) : String := if xs.isEmpty then "-" else chained xs

/-- What the entries export. -/
def symbols (a : Analysis) : List Block :=
  if a.flows.isEmpty then []
  else
    let count := a.flows.length
    let rows := (a.flows.mergeSort fun x y => decide (x.1 ≤ y.1)).take mostRows
    [.table s!"🧭 Public symbols ({count})" ["symbol", "defined in", "via", "public from"]
      (rows.map fun (name, f) =>
        [name, a.graph.relative f.definedIn, chainedOrDash f.chain,
          ", ".intercalate f.publicFrom])]

/-- The imports that go against the layers. -/
def violations (a : Analysis) : Block :=
  let found := a.architecture.violations
  if found.isEmpty then .text "[green]🏛️ No layer violations[/green]"
  else
    let count := found.length
    .table s!"🏛️ Layer violations ({count})" ["from", "to", "layers"]
      ((found.take mostRows).map fun v =>
        [v.source, v.target, v.sourceLayer ++ " → " ++ v.targetLayer])

/-- The report on an analysis that took some milliseconds. -/
def of (a : Analysis) (took : Nat) : List Block :=
  [summary a took, cycles a] ++ unused a ++ [packages a] ++ symbols a ++ [violations a]

/-! ### The program -/

/-- Why the program stops without an answer. -/
inductive Failure where
  | options (problems : List Options.Problem)
  | project (error : ProjectError)
deriving DecidableEq, Repr, Inhabited

/-- The error is one that the program reports itself. -/
def isReported : ProjectError → Bool
  | .manifest (.notText _) => false
  | .manifest (.tooLong _) => false
  | .manifest (.scripts _) => false
  | .manifest (.keywords _) => false
  | .manifest _ => true
  | .unsearchable _ => false
  | .tooDeep => false

/-- How a run of the program ends. -/
inductive Outcome where
  /-- Nothing stands where the arguments point. -/
  | nothingThere (target : String)
  /-- The project cannot be analysed. -/
  | failed (root : String) (error : ProjectError)
  | analysed (root : String) (analysis : Analysis)

namespace Outcome

/-- The exit code. -/
def code : Outcome → Nat
  | nothingThere _ => 1
  | failed _ _ => 1
  | analysed _ _ => 0

/-- The line that stands above an analysis. -/
def opening (root : String) : Block :=
  .text ("\n[bold yellow]🔍 Analyzing " ++ root ++ "...[/bold yellow]")

/-- What the program prints, when the analysis took some milliseconds. -/
def printed (o : Outcome) (took : Nat) : List Block :=
  match o with
  | nothingThere target => [.text ("[red]❌ 경로 없음: " ++ target ++ "[/red]")]
  | failed root error => [opening root, .text ("[red]❌ " ++ error.message ++ "[/red]")]
  | analysed root analysis => opening root :: Report.of analysis took

end Outcome

/-- What the analysis had to go on without, if there was one. -/
def Outcome.warnings : Outcome → List Warning
  | nothingThere _ => []
  | failed _ _ => []
  | analysed _ analysis => analysis.warnings

/-- The words for a failure. -/
def Failure.message : Failure → String
  | .options problems => Options.problemsMessage problems
  | .project error => error.message

/-- The path of the project: the first argument, or what the environment says. -/
def target (args : List String) (env : String → Option String) : String :=
  args.head?.getD ((env "MODGRAPH_ROOT").getD ".")

/-- The places whose files the program needs: the project, and the compiler's settings. -/
def places (current : String) (args : List String) (env : String → Option String) :
    List String :=
  let root := Path.absolute current (target args env)
  match Options.ofEnvironment env with
  | .refused _ => [root]
  | .accepted options => [root, Path.normalize (Exclusion.settingsPath root options)]

/-- The paths outside the project that the imports of its files may mean.  Whether
there are files decides where those imports lead. -/
def outside (g : Graph) (extensions : List String) : List String :=
  g.nodes.flatMap fun n =>
    let specifiers :=
      n.links.unresolved ++ n.links.internal.flatMap fun (_, is) => is.map Import.specifier
    specifiers.flatMap fun s =>
      (Resolution.candidates (Resolution.base (Path.folder n.path) s) extensions).filter fun path =>
        (Path.below? g.root path).isNone

/-- The places that the program needs once it knows the imports of a project. -/
def morePlaces (o : Outcome) (env : String → Option String) : List String :=
  match o, Options.ofEnvironment env with
  | .analysed _ analysis, .accepted options => outside analysis.graph options.extensions
  | _, _ => []

/-- What the program does among some files, given its arguments and its environment. -/
def run (limits : Limits) (t : FileTree) (current : String) (args : List String)
    (env : String → Option String) : Except Failure Outcome :=
  let target := target args env
  let root := Path.absolute current target
  if (t.find? (Path.join current target)).isNone then .ok (.nothingThere (Path.plain target))
  else
    match Options.ofEnvironment env with
    | .refused problems => .error (.options problems)
    | .accepted options =>
      match Analysis.ofProject limits t root options with
      | .ok a => .ok (.analysed root a)
      | .error e => if isReported e then .ok (.failed root e) else .error (.project e)

end Report

end ModuleAtlas
