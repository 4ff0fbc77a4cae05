/-
ModuleAtlas/Graph/Build.lean

From a file tree to the graph of its modules.

A builder belongs to one root and one set of options.  It reads the patterns to be
left out when it is made, and it keeps what it found about specifiers from build to
build.
-/
import ModuleAtlas.Graph.Discovery
import ModuleAtlas.Graph.Exclusion
import ModuleAtlas.Graph.Wiring

namespace ModuleAtlas

/-- What builds the graph of a project. -/
structure Builder where
  root : String
  options : Options := {}
  exclude : List String := []
  cache : Resolution.Cache := {}
deriving DecidableEq, Repr, Inhabited

namespace Builder

/-- The builder of a root with options, and what it had to go on without. -/
def make (t : FileTree) (root : String) (options : Options) : Builder × List Warning :=
  let (exclude, warnings) := Exclusion.patterns t root options
  (⟨root, options, exclude, {}⟩, warnings)

/-- What the builder looks for. -/
def search (b : Builder) : Discovery.Search := ⟨b.root, b.options.extensions, b.exclude⟩

/-- What a specifier means in a folder. -/
def resolve (b : Builder) (t : FileTree) (folder specifier : String) : Option String × Builder :=
  let (found, cache) := b.cache.resolve t b.options.extensions folder specifier
  (found, { b with cache })

/-! ### Nodes -/

/-- One more import of a file in a folder, put where it leads. -/
def link (t : FileTree) (folder : String) (state : Links × Builder) (i : Import) :
    Links × Builder :=
  let (links, b) := state
  match i.package with
  | some package => (links.addExternal package i, b)
  | none =>
    match b.resolve t folder i.specifier with
    | (some path, b) => (links.addInternal path { i with resolved := some path }, b)
    | (none, b) => (links.addUnresolved i.specifier, b)

/-- The node of a file with a record. -/
def node (b : Builder) (t : FileTree) (path : String) (r : Record) : Node × Builder :=
  let (links, b) := r.imports.foldl (link t (Path.folder path)) ({}, b)
  ({ path, relative := Path.relative path b.root, links, exports := r.exports,
     lineCount := r.lineCount }, b)

/-- What came of a file: its node and its star exports, or why it has none. -/
structure Outcome where
  path : String
  result : Except SourceError (Node × List String)

/-- What comes of a file. -/
def outcome (b : Builder) (t : FileTree) (path : String) : Outcome × Builder :=
  match Source.record t path with
  | .error e => (⟨path, .error e⟩, b)
  | .ok r =>
    let (n, b) := b.node t path r
    (⟨path, .ok (n, r.stars)⟩, b)

/-- What comes of files, one after the other. -/
def outcomes (t : FileTree) : Builder → List String → List Outcome × Builder
  | b, [] => ([], b)
  | b, path :: rest =>
    let (o, b) := b.outcome t path
    let (more, b) := outcomes t b rest
    (o :: more, b)

/-- The node that came of a file, if one did. -/
def Outcome.node? (o : Outcome) : Option Node :=
  match o.result with
  | .ok (n, _) => some n
  | .error _ => none

/-- The star exports that came of a file, if there are any. -/
def Outcome.stars? (o : Outcome) : Option (String × List String) :=
  match o.result with
  | .ok (_, s :: more) => some (o.path, s :: more)
  | _ => none

/-- The warning that came of a file, if one did. -/
def Outcome.warning? (root : String) (o : Outcome) : Option Warning :=
  match o.result with
  | .error e => some (.skipped (Path.relative o.path root) e)
  | .ok _ => none

/-- The nodes that came of files, in the order of the files, whatever the order in
which the files were done. -/
def nodesInOrder (files : List String) (os : List Outcome) : List Node :=
  files.filterMap fun path => (os.find? fun o => o.path == path).bind Outcome.node?

/-- The star exports that came of files. -/
def starsOf (os : List Outcome) : Graph.Stars := os.filterMap Outcome.stars?

/-- What the graph goes on without. -/
def warningsOf (root : String) (os : List Outcome) : List Warning :=
  let skipped := os.filterMap (Outcome.warning? root)
  if skipped.isEmpty then [] else skipped ++ [.leftOut skipped.length]

/-! ### Graphs -/

/-- The graph of files that are done, with given entries. -/
def assemble (b : Builder) (entries files : List String) (os : List Outcome) : Graph :=
  let g : Graph := ⟨b.root, nodesInOrder files os⟩
  let g := g.wire.expandStars (starsOf os)
  g.assignRoles (g.entryFiles b.options.extensions entries)

/-- The files at hand, what comes of them, and the builder with what it found. -/
def survey (b : Builder) (t : FileTree) : List String × List Outcome × Builder :=
  let files := Discovery.files t b.search
  (files, outcomes t b files)

/-- The star exports of some files that are done cannot be followed because more calls would have to
be open at once than may be. -/
def starsOverflow (b : Builder) (calls : Nat) (files : List String) (os : List Outcome) : Bool :=
  let g : Graph := ⟨b.root, nodesInOrder files os⟩
  (starsOf os).any fun s => (g.visitWithin (starsOf os) calls [] s.1).isNone

/-- The graph of the files at hand with given entries, what it goes on without, and
the builder with what it found. -/
def build (b : Builder) (t : FileTree) (entries : List String) :
    Graph × List Warning × Builder :=
  let files := Discovery.files t b.search
  let (os, b) := outcomes t b files
  (b.assemble entries files os, warningsOf b.root os, b)

end Builder

end ModuleAtlas
