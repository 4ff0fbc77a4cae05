/-
ModuleAtlas/Analysis/Flow.lean

The flow of exports: where what an entry exports is defined, and through which
files it came.
-/
import ModuleAtlas.Graph.Unvisited
import ModuleAtlas.Manifest.ExportsMap

namespace ModuleAtlas

/-- How something is exported where it is defined. -/
inductive ExportForm where
  | named
  | main
  | whole
deriving DecidableEq, Repr, Inhabited

/-- The word for a form in answers. -/
def ExportForm.label : ExportForm → String
  | .named => "named"
  | .main => "default"
  | .whole => "namespace"

/-- The way of an export. -/
structure Flow where
  /-- The path of the file that defines it. -/
  definedIn : String
  form : ExportForm := .named
  /-- The files that it came through, as seen from the root. -/
  chain : List String := []
  /-- The entries that export it, as seen from the root. -/
  publicFrom : List String := []
  /-- The conditions under which those are used. -/
  conditions : List String := []
deriving DecidableEq, Repr, Inhabited

namespace Flow

/-- The file that an export of a node comes from: by its specifier where it has one,
otherwise by its name among the imports. -/
def supplier? (n : Node) (e : Export) : Option String :=
  match e.source with
  | some specifier => n.links.supplier? fun i => i.specifier == specifier
  | none => n.links.supplier? fun i => i.names.contains e.lookupName || i.isNamespace

/-- The way of an export of a file, past the files visited before. -/
def traceFrom (g : Graph) (visited : List String) (path name : String) : Flow :=
  if _seen : visited.contains path = true then { definedIn := path }
  else
    match _at : g.node? path with
    | none => { definedIn := path }
    | some n =>
      match n.export? name with
      | none => { definedIn := path }
      | some e =>
        if !e.isReexport then { definedIn := path, form := if e.isDefault then .main else .named }
        else
          match supplier? n e with
          | none => { definedIn := path }
          | some target =>
            if e.isNamespace then
              { definedIn := target, form := .whole, chain := [n.relative] }
            else
              let f := traceFrom g (path :: visited) target e.lookupName
              { f with chain := n.relative :: f.chain }
termination_by g.unvisited visited
decreasing_by
  exact g.unvisited_cons_lt visited path (Graph.has_of_node? _at) (by simpa using _seen)

/-- How many calls are open at once while a way is found: one for each file that the export came
through, and one for the file at which the way ends.  A module that is exported as a whole is not
looked into. -/
def calls (f : Flow) : Nat :=
  match f.form with
  | .whole => f.chain.length
  | _ => f.chain.length + 1

/-- The way of an export of a file. -/
def trace (g : Graph) (path name : String) : Flow := traceFrom g [] path name

/-- The file that defines an export of a file, past the files visited before. -/
def originFrom (g : Graph) (visited : List String) (path name : String) : Option String :=
  if _seen : visited.contains path = true then none
  else
    match _at : g.node? path with
    | none => none
    | some n =>
      match n.export? name with
      | none => none
      | some e =>
        if !e.isReexport then some path
        else
          match supplier? n e with
          | none => none
          | some target =>
            if e.isNamespace then some target
            else originFrom g (path :: visited) target e.lookupName
termination_by g.unvisited visited
decreasing_by
  exact g.unvisited_cons_lt visited path (Graph.has_of_node? _at) (by simpa using _seen)

/-- The file that defines an export of a file. -/
def origin? (g : Graph) (path name : String) : Option String := originFrom g [] path name

/-! ### Entries -/

/-- The entry files of a graph, those given and those by their role, in the order of
their paths. -/
def entryFiles (g : Graph) (given : List String) : List String :=
  let all := (given ++ g.entries).foldl insertNew []
  (all.filter g.has).mergeSort fun a b => decide (a ≤ b)

/-- The conditions under which a file is used. -/
def conditionsOf (map : Option ExportsMap) (excluded : List String) (relative : String) :
    List String :=
  match map with
  | none => []
  | some map =>
    (map.paths.flatMap ExportPath.conditions).foldl
      (fun found c =>
        if excluded.contains (Manifest.exclusion c.condition) || found.contains c.condition then
          found
        else if Target.isFor c.target relative then found ++ [c.condition]
        else found)
      []

/-- The way of an export from an entry, which is no part of its own chain. -/
def ofEntry (g : Graph) (n : Node) (name : String) : Flow :=
  let f := trace g n.path name
  { f with chain := if f.chain.head? == some n.relative then f.chain.drop 1 else f.chain }

/-- The flow is public from one more entry. -/
def publish (n : Node) (conditions : List String) (f : Flow) : Flow :=
  { f with
    publicFrom := insertNew f.publicFrom n.relative
    conditions := conditions.foldl insertNew f.conditions }

/-- One more export of an entry. -/
def addExport (g : Graph) (n : Node) (conditions : List String) (flows : List (String × Flow))
    (e : Export) : List (String × Flow) :=
  if flows.any fun f => f.1 == e.name then
    flows.map fun f => if f.1 == e.name then (f.1, publish n conditions f.2) else f
  else flows ++ [(e.name, publish n conditions (ofEntry g n e.name))]

/-- The exports of the entries whose ways are looked for: of those of one name the first. -/
def traced (g : Graph) (entries : List String) : List (Node × String) :=
  ((entryFiles g entries).filterMap g.node?).foldl
    (fun found n => n.exports.foldl
      (fun found e => if found.any fun x => x.2 == e.name then found else found ++ [(n, e.name)])
      found)
    []

/-- The flows of all exports of the entries, by name. -/
def all (g : Graph) (entries : List String) (map : Option ExportsMap) (excluded : List String) :
    List (String × Flow) :=
  ((entryFiles g entries).filterMap g.node?).foldl
    (fun flows n =>
      n.exports.foldl (addExport g n (conditionsOf map excluded n.relative)) flows)
    []

end Flow

/-- What an entry defines itself. -/
structure PublicEntry where
  entry : String
  exports : List Export
deriving DecidableEq, Repr, Inhabited

/-- What the entries of a graph define themselves. -/
def publicEntries (g : Graph) (entries : List String) : List PublicEntry :=
  ((Flow.entryFiles g entries).filterMap g.node?).map fun n =>
    ⟨n.relative, n.exports.filter fun e => !e.isReexport⟩

end ModuleAtlas
