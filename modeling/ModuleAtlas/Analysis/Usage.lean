/-
ModuleAtlas/Analysis/Usage.lean

What is used: exports by other files, and packages by all.
-/
import ModuleAtlas.Graph.Node
import ModuleAtlas.Manifest.Config
import ModuleAtlas.Specifier

namespace ModuleAtlas

/-- Texts in the order of their characters. -/
def sorted (xs : List String) : List String := xs.mergeSort fun a b => decide (a ≤ b)

/-! ### Exports -/

/-- An export that no file uses. -/
structure UnusedExport where
  file : String
  name : String
  kind : Kind
deriving DecidableEq, Repr, Inhabited

namespace Usage

/-- The names that an import takes from a file.  That of a whole module takes all that
the file exports. -/
def namesTaken (g : Graph) (target : String) (i : Import) : List String :=
  i.names.flatMap fun name =>
    if name == wholeModule then
      match g.node? target with
      | some n => n.exports.map Export.name
      | none => []
    else [name]

/-- The names that imports of a file take from another, behind those known before. -/
def addNames (g : Graph) (used : List (String × List String)) (target : String)
    (imports : List Import) : List (String × List String) :=
  let names := imports.flatMap (namesTaken g target)
  if used.any fun u => u.1 == target then
    used.map fun u => if u.1 == target then (u.1, names.foldl insertNew u.2) else u
  else used ++ [(target, names.foldl insertNew [])]

/-- The names that are taken from each file. -/
def names (g : Graph) : List (String × List String) :=
  (g.nodes.flatMap fun n => n.links.internal).foldl (fun used t => addNames g used t.1 t.2) []

/-- The names that are taken from a file. -/
def namesOf (used : List (String × List String)) (path : String) : List String :=
  ((used.find? fun u => u.1 == path).map Prod.snd).getD []

/-- The export is taken by one of the names. -/
def isTaken (names : List String) (e : Export) : Bool :=
  names.contains e.name || (e.isDefault && names.contains defaultName)

/-- The exports of a node that no file takes. -/
def unusedOf (used : List (String × List String)) (n : Node) : List UnusedExport :=
  let names := namesOf used n.path
  (n.exports.filter fun e => !e.isReexport && !isTaken names e).map fun e =>
    ⟨n.relative, e.name, e.kind⟩

/-- The exports that no file takes.  Those of entries and of barrels do not count. -/
def unused (g : Graph) (entries : List String) : List UnusedExport :=
  let used := names g
  (g.nodes.filter fun n =>
    !(entries.contains n.path || n.role == .entry || n.role == .barrel)).flatMap (unusedOf used)

/-! ### Packages -/

/-- The packages that files of some roles use. -/
def packages (g : Graph) (p : Role → Bool) : List String :=
  ((g.nodes.filter fun n => p n.role).flatMap fun n => n.links.external).foldl insertNew []

end Usage

/-- Declared packages against those in use. -/
structure Audit where
  production : List String := []
  development : List String := []
  peer : List String := []
  usedProduction : List String := []
  usedDevelopment : List String := []
  unused : List String := []
  unlisted : List String := []
  misplaced : List String := []
deriving DecidableEq, Repr, Inhabited

/-- Declared packages against those in use. -/
def Audit.of (g : Graph) (d : Dependencies) : Audit :=
  let inProduction := Usage.packages g fun r => !r.isAside
  let inTests := Usage.packages g Role.isAside
  let used := inTests.foldl insertNew inProduction
  { production := d.production
    development := d.development
    peer := d.peer
    usedProduction := sorted inProduction
    usedDevelopment := sorted inTests
    unused := (d.production ++ d.development).filter fun p => !used.contains p
    unlisted := sorted (used.filter fun p => !d.all.contains p && !Specifier.isBuiltin p)
    misplaced := d.production.filter fun p => inTests.contains p && !inProduction.contains p }

/-- How a package is declared. -/
inductive Category where
  | production
  | development
  | peer
  | unlisted
deriving DecidableEq, Repr, Inhabited

/-- The word for a category in answers. -/
def Category.label : Category → String
  | .production => "production"
  | .development => "development"
  | .peer => "peer"
  | .unlisted => "unlisted"

/-- How a package is declared. -/
def Category.of (d : Dependencies) (package : String) : Category :=
  if d.production.contains package then .production
  else if d.development.contains package then .development
  else if d.peer.contains package then .peer
  else .unlisted

/-- A package and the files that use it. -/
structure ExternalPackage where
  name : String
  usedBy : List String := []
  isDeclared : Bool := false
  /-- Only files that do not go into production use it. -/
  isAside : Bool := false
deriving DecidableEq, Repr, Inhabited

/-- The packages in use, by name, each with the files that use it. -/
def externalPackages (g : Graph) (d : Dependencies) : List ExternalPackage :=
  (sorted (Usage.packages g fun _ => true)).map fun package =>
    let users := g.nodes.filter fun n => n.links.external.contains package
    { name := package
      usedBy := users.map Node.relative
      isDeclared := d.all.contains package
      isAside := users.all fun n => n.role.isAside }

/-- One import of a package. -/
structure UsageSite where
  file : String
  symbols : List String := []
  isNamespace : Bool := false
  isDefault : Bool := false
  typeOnly : Bool := false
  dynamic : Bool := false
deriving DecidableEq, Repr, Inhabited

/-- The imports of a package. -/
structure PackageUsage where
  package : String
  declaredAs : Category
  sites : List UsageSite := []
deriving DecidableEq, Repr, Inhabited

namespace PackageUsage

/-- The import of a package in a file. -/
def site (file : String) (i : Import) : UsageSite :=
  { file
    symbols := i.names.filter fun name => name != wholeModule && name != defaultName
    isNamespace := i.isNamespace
    isDefault := i.names.contains defaultName
    typeOnly := i.typeOnly
    dynamic := i.dynamic }

/-- The names taken from the package, each once. -/
def symbols (u : PackageUsage) : List String :=
  (u.sites.flatMap UsageSite.symbols).foldl insertNew []

/-- The files that use the package, each once. -/
def files (u : PackageUsage) : List String := (u.sites.map UsageSite.file).foldl insertNew []

/-- How many of its imports are of types only. -/
def typeOnlyCount (u : PackageUsage) : Nat := (u.sites.filter UsageSite.typeOnly).length

/-- The imports of packages in a graph, each with its package. -/
def sitesIn (g : Graph) : List (String × UsageSite) :=
  g.nodes.flatMap fun n => n.links.packaged.map fun i => (i.package.getD "", site n.relative i)

/-- The imports of each package in use, by its name. -/
def all (g : Graph) (d : Dependencies) : List PackageUsage :=
  let found := sitesIn g
  (sorted ((found.map Prod.fst).foldl insertNew [])).map fun package =>
    ⟨package, Category.of d package,
      (found.filter fun s => s.1 == package).map Prod.snd⟩

end PackageUsage

/-! ### Edges -/

/-- The imports of one file from another. -/
structure Edge where
  source : String
  target : String
  importCount : Nat
  names : List String
deriving DecidableEq, Repr, Inhabited

/-- The imports of files from files. -/
def internalEdges (g : Graph) : List Edge :=
  g.nodes.flatMap fun n => n.links.internal.map fun (target, imports) =>
    ⟨n.relative, g.relative target, imports.length, imports.flatMap Import.names⟩

end ModuleAtlas
