/-
ModuleAtlas/Graph/Wiring.lean

The second pass over a graph, once all its nodes are known: who imports a file, what
a star export stands for, which files are entries, and what role each file has.
-/
import ModuleAtlas.Graph.Node
import ModuleAtlas.Resolution
import ModuleAtlas.Target

namespace ModuleAtlas.Graph

/-! ### Reverse edges -/

/-- The files that import from a file. -/
def importersOf (g : Graph) (path : String) : List String :=
  (g.nodes.filter fun n => n.links.targets.contains path).map Node.path

/-- The graph whose nodes know who imports from them. -/
def wire (g : Graph) : Graph :=
  g.map fun n => { n with importedBy := (g.importersOf n.path).foldl insertNew n.importedBy }

/-! ### Star exports -/

/-- The specifiers of the star exports of files. -/
abbrev Stars := List (String × List String)

/-- The star exports of a file. -/
def starsOf (stars : Stars) (path : String) : List String :=
  ((stars.find? fun s => s.1 == path).map Prod.snd).getD []

/-- The import is that of a specifier. -/
def isOf (specifier : String) (i : Import) : Bool := i.specifier == specifier

/-- The place of the first import of a specifier. -/
def placeOf (n : Node) (specifier : String) (fallback : Position) : Position :=
  ((n.links.internal.flatMap Prod.snd).find? (isOf specifier)).elim fallback Import.pos

/-- An export of another file as it is seen through a star export. -/
def throughStar (n : Node) (specifier : String) (e : Export) : Export :=
  { name := e.name
    kind := e.kind
    isReexport := true
    remote := some e.name
    source := some specifier
    members := e.members
    doc := e.doc
    signature := e.signature
    release := e.release
    pos := placeOf n specifier e.pos }

/-- One more export seen through a star export, unless it is the default one or its
name is taken. -/
def addThroughStar (n : Node) (specifier : String) (found : List Export) (e : Export) :
    List Export :=
  if e.isDefault || found.any fun x => x.name == e.name then found
  else found ++ [throughStar n specifier e]

/-- The exports found so far with those seen through one more star export of a node,
and the files visited so far, where `visit` gives the exports of another file. -/
def addStar (visit : List String → String → List Export × List String) (n : Node)
    (state : List Export × List String) (specifier : String) : List Export × List String :=
  match n.links.supplier? (isOf specifier) with
  | none => state
  | some target =>
    let (more, visited) := visit state.2 target
    (more.foldl (addThroughStar n specifier) state.1, visited)

/-- The exports of a file with those of its star exports, and the files that were
visited for them.  A file that was visited before gives none. -/
def visibleUpTo (g : Graph) (stars : Stars) :
    Nat → List String → String → List Export × List String
  | 0, visited, _ => ([], visited)
  | depth + 1, visited, path =>
    if visited.contains path then ([], visited)
    else
      match g.node? path with
      | none => ([], path :: visited)
      | some n =>
        (starsOf stars path).foldl (addStar (visibleUpTo g stars depth) n)
          (n.exports, path :: visited)

/-- The exports of a file with those of its star exports.  No way along star exports
visits more files than there are. -/
def visibleExports (g : Graph) (stars : Stars) (path : String) : List Export :=
  (visibleUpTo g stars (g.nodes.length + 1) [] path).1

/-- The files that the star exports of a node name. -/
def starTargets (stars : Stars) (n : Node) : List String :=
  (starsOf stars n.path).filterMap fun specifier => n.links.supplier? (isOf specifier)

/-- The files that are visited for the exports of a file, as `visibleUpTo` visits them, or `none` if
more calls would have to be open at once than may be. -/
def visitWithin (g : Graph) (stars : Stars) : Nat → List String → String → Option (List String)
  | 0, _, _ => none
  | calls + 1, visited, path =>
    if visited.contains path then some visited
    else
      match g.node? path with
      | none => some (path :: visited)
      | some n => (starTargets stars n).foldlM (visitWithin g stars calls) (path :: visited)

/-- The graph whose star exports stand for the exports of the files they name. -/
def expandStars (g : Graph) (stars : Stars) : Graph :=
  g.map fun n =>
    if stars.any fun s => s.1 == n.path then { n with exports := visibleExports g stars n.path }
    else n

/-! ### Entries and roles -/

/-- The path of an entry names one file. -/
def namesFile (entry : String) : Bool :=
  !entry.isEmpty && entry.toList.head? != some '!' && !entry.toList.contains '*'

/-- The file that an entry means: the one that an import from the root would mean,
or else the source of the output that it names. -/
def entryFile? (g : Graph) (extensions : List String) (entry : String) : Option String :=
  if namesFile entry then
    match (Resolution.candidates (Resolution.base g.root entry) extensions).find? g.has with
    | some path => some path
    | none => (g.nodes.find? fun n => Target.isFor entry n.relative).map Node.path
  else none

/-- The files that some entries mean, each once. -/
def entryFiles (g : Graph) (extensions : List String) (entries : List String) : List String :=
  (entries.filterMap (g.entryFile? extensions)).foldl insertNew []

/-- The graph whose nodes have their roles. -/
def assignRoles (g : Graph) (entries : List String) : Graph :=
  g.map fun n => { n with role := Role.ofFile n.relative n.exports (entries.contains n.path) }

end ModuleAtlas.Graph
