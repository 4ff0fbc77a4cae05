/-
ModuleAtlas/Manifest/ExportsMap.lean

The exports field of a manifest as a map from subpaths to conditions and targets.
-/
import ModuleAtlas.Graph.Node
import ModuleAtlas.Manifest.Config
import ModuleAtlas.Target

namespace ModuleAtlas

/-- A condition under which a target is used. -/
structure ExportCondition where
  condition : String
  target : String
  /-- The absolute path of the target. -/
  resolved : String
deriving DecidableEq, Repr, Inhabited

/-- A subpath of a package with its conditions. -/
structure ExportPath where
  path : String
  conditions : List ExportCondition := []
deriving DecidableEq, Repr, Inhabited

/-- The exports of a package. -/
structure ExportsMap where
  paths : List ExportPath := []
  /-- The subpaths with a star. -/
  wildcards : List String := []
  /-- The files that no target stands for. -/
  internalOnly : List String := []
deriving DecidableEq, Repr, Inhabited

namespace ExportsMap

/-- All targets. -/
def targets (m : ExportsMap) : List String :=
  m.paths.flatMap fun p => p.conditions.map ExportCondition.target

/-- A subpath with its value, in a package at a root. -/
def pathOf (root : String) (path : String) (value : Json) : ExportPath :=
  ⟨path, (Manifest.conditioned "" value).map fun (condition, target) =>
    ⟨condition, target, Path.normalize (Path.join root target)⟩⟩

/-- The value is null. -/
def isNull : Json → Bool
  | .null => true
  | _ => false

/-- The exports of a package at a root, if its manifest has such a field. -/
def ofManifest? (m : Manifest.Fields) (root : String) : Option ExportsMap :=
  let value := Json.field m "exports"
  if isNull value then none
  else
    let subpaths := Manifest.subpaths value
    some
      { paths := (subpaths.filter fun s => !isNull s.2).map fun s => pathOf root s.1 s.2
        wildcards := (subpaths.map Prod.fst).filter fun s => s.toList.contains '*' }

/-- The files of a graph that no target stands for, those aside left out. -/
def unreached (m : ExportsMap) (g : Graph) : List String :=
  let kept := g.nodes.filter fun n =>
    !n.role.isAside && !m.targets.any fun t => Target.isFor t n.relative
  (kept.map Node.relative).mergeSort fun a b => decide (a ≤ b)

/-- The map with the files of a graph that it does not reach. -/
def withGraph (m : ExportsMap) (g : Graph) : ExportsMap := { m with internalOnly := m.unreached g }

end ExportsMap

end ModuleAtlas
