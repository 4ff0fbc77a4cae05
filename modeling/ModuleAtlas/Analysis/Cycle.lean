/-
ModuleAtlas/Analysis/Cycle.lean

Cycles of imports, found by a depth-first walk.  The walk starts anew at every file
that was not visited; where it meets a file that it is inside of, it has found a
cycle, which is the way from that file back to it.
-/
import ModuleAtlas.Graph.Unvisited

namespace ModuleAtlas.Cycle

/-- A file that the walk is inside of, and the imports of it that are still to be
followed. -/
structure Frame where
  path : String
  left : List String
deriving DecidableEq, Repr, Inhabited

/-- The files of the graph that a file imports from. -/
def neighbours (g : Graph) (path : String) : List String :=
  match g.node? path with
  | some n => n.links.targets.filter g.has
  | none => []

/-- How much is left to follow. -/
def work : List Frame → Nat
  | [] => 0
  | f :: outer => f.left.length + 1 + work outer

/-- The way from a file that the walk is inside of to its innermost file, and back
to that file. -/
def wayBack (stack : List Frame) (path : String) : List String :=
  path :: ((stack.map Frame.path).takeWhile (· != path)).reverse ++ [path]

/-- The cycles that the walk still finds, its innermost file first in the stack, and
the files visited in the end. -/
def walk (g : Graph) (visited : List String) : List Frame → List (List String) × List String
  | [] => ([], visited)
  | ⟨_, []⟩ :: outer => walk g visited outer
  | ⟨path, next :: left⟩ :: outer =>
    if (path :: outer.map Frame.path).contains next then
      let (more, visited) := walk g visited (⟨path, left⟩ :: outer)
      (wayBack (⟨path, left⟩ :: outer) next :: more, visited)
    else if _h : visited.contains next = false ∧ g.has next = true then
      walk g (next :: visited) (⟨next, neighbours g next⟩ :: ⟨path, left⟩ :: outer)
    else walk g visited (⟨path, left⟩ :: outer)
termination_by stack => (g.unvisited visited, work stack)
decreasing_by
  · apply Prod.Lex.right
    simp [work]
  · apply Prod.Lex.right
    simp [work]
  · apply Prod.Lex.left
    exact g.unvisited_cons_lt visited next _h.2 _h.1
  · apply Prod.Lex.right
    simp [work]

/-- The cycles found from some starts, in files given by their paths. -/
def pathsFrom (g : Graph) : List String → List String → List (List String)
  | _, [] => []
  | visited, start :: rest =>
    if visited.contains start then pathsFrom g visited rest
    else
      let (found, visited) := walk g (start :: visited) [⟨start, neighbours g start⟩]
      found ++ pathsFrom g visited rest

/-- The cycles of a graph, in files given by their paths. -/
def paths (g : Graph) : List (List String) := pathsFrom g [] g.paths

/-- The cycles of a graph, in files as seen from the root. -/
def all (g : Graph) : List (List String) := (paths g).map fun c => c.map g.relative

end ModuleAtlas.Cycle
