/-
ModuleAtlas/Analysis/Insight.lean

What stands out in a graph.
-/
import ModuleAtlas.Analysis.Usage

namespace ModuleAtlas

/-- A file and how many files import from it. -/
structure ImportedFile where
  file : String
  importedBy : Nat
deriving DecidableEq, Repr, Inhabited

/-- What stands out in a graph. -/
structure Insights where
  unused : List UnusedExport := []
  cycles : List (List String) := []
  barrels : List String := []
  largest : List String := []
  mostImported : List ImportedFile := []
  orphans : List String := []
  typeOnly : List String := []
deriving DecidableEq, Repr, Inhabited

namespace Insights

/-- How many files are listed at most. -/
def most : Nat := 10

/-- The first elements; a count below zero leaves so many off the end. -/
def firstOf {α : Type} (limit : Int) (xs : List α) : List α :=
  if 0 ≤ limit then xs.take limit.toNat else xs.take (xs.length - limit.natAbs)

/-- Nodes by falling size; those of one size by path. -/
def ranked (size : Node → Nat) (nodes : List Node) : List Node :=
  nodes.mergeSort fun a b =>
    decide (size b < size a) || (size a == size b && decide (a.relative ≤ b.relative))

/-- The files from which most files import. -/
def mostImportedFiles (g : Graph) (limit : Int) : List ImportedFile :=
  (firstOf limit
    (ranked (·.importedBy.length) (g.nodes.filter fun n => !n.importedBy.isEmpty))).map
    fun n => ⟨n.relative, n.importedBy.length⟩

/-- The files with the most exports. -/
def largestFiles (g : Graph) (limit : Int) : List String :=
  (firstOf limit (ranked (·.exports.length) (g.nodes.filter fun n => !n.exports.isEmpty))).map
    Node.relative

/-- The barrels. -/
def barrelFiles (g : Graph) : List String :=
  (g.nodes.filter fun n => n.role == .barrel).map Node.relative

/-- The files that nothing leads to. -/
def orphanFiles (g : Graph) (entries : List String) : List String :=
  (g.nodes.filter fun n =>
    n.importedBy.isEmpty && !entries.contains n.path && n.role != .entry && !n.role.isAside).map
    Node.relative

/-- The export is a type. -/
def isType (e : Export) : Bool := e.kind == .typeAlias || e.kind == .interface

/-- The files whose own exports are all types. -/
def typeOnlyFiles (g : Graph) : List String :=
  (g.nodes.filter fun n =>
    let own := n.exports.filter fun e => !e.isReexport
    !own.isEmpty && own.all isType).map Node.relative

/-- What stands out in a graph with given entries and cycles. -/
def of (g : Graph) (entries : List String) (cycles : List (List String)) : Insights :=
  { unused := Usage.unused g entries
    cycles
    barrels := barrelFiles g
    largest := largestFiles g most
    mostImported := mostImportedFiles g most
    orphans := orphanFiles g entries
    typeOnly := typeOnlyFiles g }

end Insights

end ModuleAtlas
