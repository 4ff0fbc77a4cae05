/-
ModuleAtlas/Main.lean

The command line: reads the files of a project, analyses them and prints the report.
-/
import ModuleAtlas.Report

namespace ModuleAtlas.Command

/-- The names of the settings that the environment can hold. -/
def settings : List String :=
  ["MODGRAPH_ROOT", "MODGRAPH_EXTENSIONS", "MODGRAPH_EXCLUDE", "MODGRAPH_INCLUDE_TESTS",
    "MODGRAPH_TSCONFIG", "MODGRAPH_MAX_WORKERS", "MODGRAPH_ENTRY_PATHS"]

/-- The tree at a path, as deep as it goes. -/
partial def load (path : String) : IO FileTree := do
  let place ← IO.FS.realPath path
  if ← place.isDir then
    let found ← place.readDir
    let entries ← found.toList.mapM fun e => return (e.fileName, ← load e.path.toString)
    return .folder entries
  else
    return .file (← IO.FS.readBinFile place).toList

/-- The tree with what stands at an absolute path put in, if anything does. -/
def addTree (t : FileTree) (path : String) : IO FileTree := do
  try
    return FileTree.put (← load path) (FileTree.names path) t
  catch _ =>
    return t

/-- The tree with the file at an absolute path put in, if there is one. -/
def addFile (t : FileTree) (path : String) : IO FileTree := do
  try
    return t.write path (← IO.FS.readBinFile path).toList
  catch _ =>
    return t

end ModuleAtlas.Command

open ModuleAtlas in
/-- Analyses the project at the path given first, or at the one that the environment
names, and prints the report. -/
def main (args : List String) : IO UInt32 := do
  let values ← Command.settings.mapM fun name => return (name, ← IO.getEnv name)
  let env (name : String) : Option String := (values.lookup name).join
  let current := (← IO.currentDir).toString
  let start ← IO.monoMsNow
  let tree ← (Report.places current args env).foldlM Command.addTree FileTree.empty
  let result ← match Report.run {} tree current args env with
    | .error failure => pure (.error failure)
    | .ok outcome =>
      match Report.morePlaces outcome env with
      | [] => pure (.ok outcome)
      | paths => pure (Report.run {} (← paths.foldlM Command.addFile tree) current args env)
  match result with
  | .error failure =>
    IO.eprintln failure.message
    return 1
  | .ok outcome =>
    outcome.warnings.forM fun w => IO.eprintln w.message
    let took := (← IO.monoMsNow) - start
    (outcome.printed took).forM fun block => block.lines.forM IO.println
    return outcome.code.toUInt32
