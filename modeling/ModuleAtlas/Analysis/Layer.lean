/-
ModuleAtlas/Analysis/Layer.lean

Layers: which one a file belongs to, and which imports go against them.
-/
import ModuleAtlas.Glob.Matching
import ModuleAtlas.Graph.Node
import ModuleAtlas.Options.Basic

namespace ModuleAtlas

/-- A layer with its files. -/
structure Layer where
  rule : LayerRule
  files : List String := []
  /-- The files that import from the layer and may not. -/
  violatedBy : List String := []
deriving DecidableEq, Repr, Inhabited

/-- An import that goes against the layers. -/
structure Violation where
  source : String
  target : String
  sourceLayer : String
  targetLayer : String
deriving DecidableEq, Repr, Inhabited

/-- The way in which the folders of a project are laid out. -/
inductive Layout where
  | monorepo
  | featureBased
  | layered
  | flat
  | unknown
deriving DecidableEq, Repr, Inhabited

/-- The word for a layout in answers. -/
def Layout.label : Layout → String
  | .monorepo => "monorepo"
  | .featureBased => "feature-based"
  | .layered => "layered"
  | .flat => "flat"
  | .unknown => "unknown"

/-- The architecture of a project. -/
structure Architecture where
  layout : Layout
  layers : List Layer := []
  violations : List Violation := []
deriving DecidableEq, Repr, Inhabited

namespace Architecture

/-- The usual layers. -/
def usual : List LayerRule :=
  [ { name := "presentation"
      description := "UI layer - components, pages, views"
      paths := ["**/components/**", "**/pages/**", "**/views/**", "**/ui/**"]
      dependsOn := ["domain", "infrastructure", "shared"] },
    { name := "domain"
      description := "Business logic - domain models, entities"
      paths := ["**/domain/**", "**/models/**", "**/entities/**", "**/core/**"]
      dependsOn := ["shared"] },
    { name := "infrastructure"
      description := "External services - APIs, repositories"
      paths := ["**/services/**", "**/api/**", "**/repositories/**", "**/adapters/**"]
      dependsOn := ["domain", "shared"] },
    { name := "shared"
      description := "Shared utilities - types, helpers"
      paths := ["**/utils/**", "**/helpers/**", "**/lib/**", "**/types/**", "**/common/**"]
      dependsOn := [] } ]

/-- A path with slashes only and in lower case. -/
def folded (path : String) : String := Text.lower (Path.slashed path)

/-- The rule holds of a path. -/
def applies (rule : LayerRule) (relative : String) : Bool :=
  Glob.anyHolds (rule.paths.map folded) (folded relative)

/-- The layer of a path: that of the first rule that holds of it. -/
def layerOf? (rules : List LayerRule) (relative : String) : Option String :=
  (rules.find? fun r => applies r relative).map LayerRule.name

/-- The rules, each with whether it is the last of its name. -/
def withLast : List LayerRule → List (LayerRule × Bool)
  | [] => []
  | r :: rest => (r, !rest.any fun s => s.name == r.name) :: withLast rest

/-- The layers with their files.  Of rules with one name the last has the files. -/
def assigned (g : Graph) (rules : List LayerRule) : List Layer :=
  (withLast rules).map fun (rule, last) =>
    { rule
      files :=
        if last then
          (g.nodes.filter fun n => layerOf? rules n.relative == some rule.name).map Node.relative
        else [] }

/-- The layer that has a file; the last one counts. -/
def layerWith? (layers : List Layer) (relative : String) : Option String :=
  (layers.reverse.find? fun l => l.files.contains relative).map fun l => l.rule.name

/-- The layer may import from the other: it is the same one, or the last rule of its
name lists it. -/
def mayUse (layers : List Layer) (source target : String) : Bool :=
  match layers.reverse.find? fun l => l.rule.name == source with
  | some l => target == source || l.rule.dependsOn.contains target
  | none => false

/-- The imports of a node that go against the layers. -/
def violationsOf (g : Graph) (layers : List Layer) (n : Node) : List Violation :=
  match layerWith? layers n.relative with
  | none => []
  | some source =>
    n.links.targets.filterMap fun path =>
      let target := g.relative path
      match layerWith? layers target with
      | none => none
      | some other =>
        if mayUse layers source other then none else some ⟨n.relative, target, source, other⟩

/-- The imports that go against the layers. -/
def violationsIn (g : Graph) (layers : List Layer) : List Violation :=
  g.nodes.flatMap (violationsOf g layers)

/-- The folders of a path, and its name behind them. -/
def foldedSegments (relative : String) : List String :=
  (Path.segments (folded relative).toList).map String.ofList

/-- How the folders of a project are laid out, by the paths of its files. -/
def layoutOf (relatives : List String) : Layout :=
  let segments := relatives.map foldedSegments
  let anyFolder (names : List String) : Bool :=
    segments.any fun parts => parts.dropLast.any names.contains
  let inSource := segments.filter fun parts => parts.head? == some "src"
  if anyFolder ["packages", "apps"] then .monorepo
  else if anyFolder ["features", "modules"] then .featureBased
  else if anyFolder ["components"] && anyFolder ["services", "utils"] then .layered
  else if !inSource.isEmpty && inSource.all fun parts => parts.length ≤ 3 then .flat
  else .unknown

/-- The architecture of a project. -/
def of (g : Graph) (rules : Option (List LayerRule)) : Architecture :=
  let layers := assigned g (rules.getD usual)
  let violations := violationsIn g layers
  { layout := layoutOf (g.nodes.map Node.relative)
    layers :=
      (layers.filter fun l => !l.files.isEmpty).map fun l =>
        { l with
          violatedBy :=
            (violations.filter fun v => v.targetLayer == l.rule.name).map Violation.source }
    violations }

end Architecture

end ModuleAtlas
