/-
ModuleAtlas/Analysis/Project.lean

The analysis of a project: its manifest, its graph, and all that follows from both.

The manifest can keep a project from being analysed, and so can the machine: where a path
has to be looked up that is too long, and where folders, declarations, star exports or
re-exports are nested so deep that following them keeps too many calls open.
-/
import ModuleAtlas.Analysis.Cycle
import ModuleAtlas.Analysis.Flow
import ModuleAtlas.Analysis.Insight
import ModuleAtlas.Analysis.Layer
import ModuleAtlas.Graph.Build
import ModuleAtlas.Limits
import ModuleAtlas.Manifest.Workspace

namespace ModuleAtlas

/-- All that is known about a project. -/
structure Analysis where
  package : PackageConfig
  graph : Graph
  entryPoints : List String := []
  audit : Audit := {}
  insights : Insights := {}
  flows : List (String × Flow) := []
  architecture : Architecture
  edges : List Edge := []
  externals : List ExternalPackage := []
  usage : List PackageUsage := []
  publicApi : List PublicEntry := []
  exportsMap : Option ExportsMap := none
  isMonorepo : Bool := false
  /-- The manifests of a project with several packages, as seen from the root. -/
  manifests : List String := []
  warnings : List Warning := []
deriving Inhabited

/-- Why a project cannot be analysed. -/
inductive ProjectError where
  | manifest (error : ManifestError)
  /-- A path that has to be looked up is too long. -/
  | unsearchable (path : String)
  /-- Too many calls would have to be open at once. -/
  | tooDeep
deriving DecidableEq, Repr, Inhabited

/-- The words for a project that cannot be analysed. -/
def ProjectError.message : ProjectError → String
  | .manifest error => error.message
  | .unsearchable path => (ReadFault.tooLong path).message
  | .tooDeep => "maximum recursion depth exceeded"

/-- The manifest of the project at an absolute path, and what it says about the package. -/
def Manifest.ofProject (limits : Limits) (t : FileTree) (root : String) :
    Except ManifestError (Fields × PackageConfig) := do
  let path := Path.join root fileName
  if t.isTooLong limits root || !t.hasFolder root then throw (.notFolder root)
  if t.isTooLong limits path then throw (.unread path (.tooLong path))
  let m ← load t path
  return (m, ← config m (Path.name root))

namespace Analysis

/-- The paths that are looked up besides those of the manifest and the sources, in their order:
those of the packages and that of the compiler's settings. -/
def lookups (t : FileTree) (root : String) (options : Options) (m : Manifest.Fields)
    (package : PackageConfig) : List String :=
  let packages :=
    if Manifest.hasWorkspaces m then Manifest.lookups t root (package.workspaces.getD []) else []
  packages ++ [Exclusion.settingsPath root options]

/-- More calls would have to be open at once than may be: to search the folders, to find what a
source declares, to follow the star exports of files that are done, or to follow the exports of
the entries of their graph. -/
def overflows (calls : Nat) (t : FileTree) (b : Builder) (files : List String)
    (os : List Builder.Outcome) (g : Graph) : Bool :=
  calls < Discovery.depth t b.search
    || (files.any fun path => ((Source.statements? t path).getD []).any fun s =>
      calls < Script.declaringCallsAtTop s)
    || b.starsOverflow calls files os
    || (Flow.traced g g.entries).any fun (n, name) => calls < (Flow.trace g n.path name).calls

/-- What follows from a manifest and a graph. -/
def derive (m : Manifest.Fields) (package : PackageConfig) (options : Options) (g : Graph) :
    Analysis :=
  let entries := g.entries
  let map := (ExportsMap.ofManifest? m g.root).map fun map => map.withGraph g
  { package
    graph := g
    entryPoints := entries
    audit := Audit.of g package.dependencies
    insights := Insights.of g entries (Cycle.all g)
    flows := Flow.all g entries map package.entryPoints.excluded
    architecture := Architecture.of g options.layers
    edges := internalEdges g
    externals := externalPackages g package.dependencies
    usage := PackageUsage.all g package.dependencies
    publicApi := publicEntries g entries
    exportsMap := map
    isMonorepo := Manifest.hasWorkspaces m }

/-- The analysis of the project at an absolute path. -/
def ofProject (limits : Limits) (t : FileTree) (root : String) (options : Options) :
    Except ProjectError Analysis := do
  let (m, package) ← (Manifest.ofProject limits t root).mapError .manifest
  match (lookups t root options m package).find? (t.isTooLong limits) with
  | some path => throw (.unsearchable path)
  | none =>
    let manifests :=
      if Manifest.hasWorkspaces m then Manifest.files t root (package.workspaces.getD []) else []
    let (builder, early) := Builder.make t root options
    let (files, os, done) := builder.survey t
    let g := done.assemble (package.entryPoints.all ++ options.entryPaths) files os
    if overflows limits.calls t builder files os g then throw .tooDeep
    else return { derive m package options g with
      manifests := manifests.map fun path => Path.relative path root
      warnings := early ++ Builder.warningsOf root os }

end Analysis

end ModuleAtlas
