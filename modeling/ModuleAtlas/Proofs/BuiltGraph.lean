/-
ModuleAtlas/Proofs/BuiltGraph.lean

What the nodes of a built graph are made of.

A graph is put together in passes: each source gives a node, and then nodes learn who
imports from them, what their star exports stand for and what role they play.  An
analysis sees only the last of these graphs.  `exists_built` goes back through the passes:
a node has the links that the imports of its source lead to, and each of its exports is
one of the source itself or came through one of its star exports.  `exists_build_eq` goes
forward: whatever the passes find out, they only add to the nodes that the sources gave.  A
file is an entry of the graph by its path alone (`role_eq_entry_of_mem_entries`), however
often it is listed.
-/
import ModuleAtlas.Proofs.OutcomeOrder
import ModuleAtlas.Proofs.ScriptRecords
import ModuleAtlas.Proofs.StarOrigin

namespace ModuleAtlas

/-! ### Roles -/

/-- Only the files that are named as entries play that role. -/
theorem Role.ofFile_eq_entry_iff {relative : String} {exports : List Export} {isEntry : Bool} :
    Role.ofFile relative exports isEntry = .entry ↔ isEntry = true := by
  cases isEntry with
  | true => exact iff_of_true rfl rfl
  | false =>
    refine iff_of_false ?_ Bool.false_ne_true
    unfold Role.ofFile
    dsimp only
    rw [if_neg Bool.false_ne_true]
    repeat' split
    all_goals exact Role.noConfusion

namespace Graph

variable {g : Graph} {es : List String} {path : String} {n : Node}

theorem role_eq_entry_iff (h : n ∈ (g.assignRoles es).nodes) : n.role = .entry ↔ n.path ∈ es := by
  obtain ⟨k, -, rfl⟩ := List.mem_map.1 h
  exact Role.ofFile_eq_entry_iff.trans List.contains_iff_mem

theorem mem_entries : path ∈ g.entries ↔ ∃ n ∈ g.nodes, n.role = .entry ∧ n.path = path := by
  unfold entries
  simp only [List.mem_map, List.mem_filter, beq_iff_eq, and_assoc]

/-! ### Passes -/

theorem exists_node?_of_wire (node : g.wire.node? path = some n) :
    ∃ k importedBy, g.node? path = some k ∧ n = { k with importedBy } := by
  unfold wire at node
  rw [node?_map g fun _ => by rfl] at node
  obtain ⟨k, first, rfl⟩ := Option.map_eq_some_iff.1 node
  exact ⟨k, _, first, rfl⟩

theorem exists_node?_of_assignRoles (node : (g.assignRoles es).node? path = some n) :
    ∃ k role, g.node? path = some k ∧ n = { k with role } := by
  unfold assignRoles at node
  rw [node?_map g fun _ => by rfl] at node
  obtain ⟨k, first, rfl⟩ := Option.map_eq_some_iff.1 node
  exact ⟨k, _, first, rfl⟩

/-- Which files entries mean is a matter of paths alone. -/
theorem entryFile?_map {f : Node → Node} (path : ∀ n, (f n).path = n.path)
    (relative : ∀ n, (f n).relative = n.relative) (extensions : List String) (entry : String) :
    (g.map f).entryFile? extensions entry = g.entryFile? extensions entry := by
  have has : (g.map f).has = g.has := by
    funext p
    unfold Graph.has Graph.map
    simp only [List.any_map, Function.comp_def, path]
  have source : ((g.map f).nodes.find? fun n => Target.isFor entry n.relative).map Node.path
      = (g.nodes.find? fun n => Target.isFor entry n.relative).map Node.path := by
    unfold Graph.map
    simp only [List.find?_map, Option.map_map, Function.comp_def, path, relative]
  unfold entryFile?
  rw [has, source]
  rfl

theorem entryFiles_map {f : Node → Node} (path : ∀ n, (f n).path = n.path)
    (relative : ∀ n, (f n).relative = n.relative) (extensions entries : List String) :
    (g.map f).entryFiles extensions entries = g.entryFiles extensions entries := by
  unfold entryFiles
  rw [funext (entryFile?_map path relative extensions)]

theorem entryFiles_wire (extensions entries : List String) :
    g.wire.entryFiles extensions entries = g.entryFiles extensions entries := by
  unfold wire
  rw [entryFiles_map (fun n => by rfl) (fun n => by rfl)]

theorem entryFiles_expandStars (stars : Stars) (extensions entries : List String) :
    (g.expandStars stars).entryFiles extensions entries = g.entryFiles extensions entries := by
  unfold expandStars
  rw [entryFiles_map (fun n => by split <;> rfl) (fun n => by split <;> rfl)]

end Graph

namespace Builder

variable {b : Builder} {t : FileTree} {entries files : List String} {path : String} {n : Node}

/-- The file has a record, the node has the links of its imports, and the exports of the node
are those of the record and such as came through its star exports. -/
structure Built (b : Builder) (t : FileTree) (n : Node) (r : Record) : Prop where
  record : Source.record t n.path = .ok r
  links : n.links = Links.ofImports (b.meaning t (Path.folder n.path)) r.imports
  exports : ∀ e ∈ n.exports,
    e ∈ r.exports ∨ ∃ s ∈ r.stars, ∃ k o, e = Graph.throughStar k s o

/-- The star exports of a file are those of its record. -/
theorem starsOf_starsOf {r : Record} (listed : path ∈ files)
    (record : Source.record t path = .ok r) :
    Graph.starsOf (starsOf (files.map (b.outcomeOf t))) path = r.stars := by
  unfold Graph.starsOf
  rw [(right_map_outcomeOf b t files).find?_starsOf, map_path_map_outcomeOf, if_pos listed]
  unfold Outcome.stars? outcomeOf
  rw [record, Except.map]
  rcases r.stars with - | ⟨s, more⟩ <;> rfl

/-- The nodes that come of files, before they know of each other. -/
theorem exists_nodeOf (h : n ∈ nodesInOrder files (files.map (b.outcomeOf t))) :
    ∃ p r, p ∈ files ∧ Source.record t p = .ok r ∧ b.nodeOf t p r = n := by
  rw [(right_map_outcomeOf b t files).nodesInOrder fun p hp => by rwa [map_path_map_outcomeOf]] at h
  obtain ⟨p, hp, node⟩ := List.mem_filterMap.1 h
  rw [node?_outcomeOf] at node
  obtain ⟨r, record, rfl⟩ := Option.map_eq_some_iff.1 node
  exact ⟨p, r, hp, Source.toOption_eq_some.1 record, rfl⟩

theorem exists_built_of_assemble
    (node : (b.assemble entries files (files.map (b.outcomeOf t))).node? path = some n) :
    ∃ r, Built b t n r := by
  unfold assemble at node
  dsimp only at node
  -- back through the passes, from the last to the first
  obtain ⟨seen, role, node', rfl⟩ := Graph.exists_node?_of_assignRoles node
  obtain ⟨wired, passed, rfl⟩ := Graph.exists_node?_of_expandStars node'
  obtain ⟨own, importedBy, first, rfl⟩ := Graph.exists_node?_of_wire passed
  obtain ⟨p, r, listed, record, rfl⟩ := exists_nodeOf (List.mem_of_find?_eq_some first)
  obtain rfl : p = path := Graph.path_of_node? first
  refine ⟨r, record, rfl, ?_⟩
  intro e he
  obtain ⟨visited, sees⟩ := Graph.sees_through passed (starsOf (files.map (b.outcomeOf t)))
  rcases sees.mem_cases he with he | ⟨s, hs, -, o, -, rfl⟩
  · exact .inl he
  · rw [starsOf_starsOf listed record] at hs
    exact .inr ⟨s, hs, _, o, rfl⟩

/-- **The nodes of a built graph** are made of the records of their files. -/
theorem exists_built (node : (b.build t entries).1.node? path = some n) :
    ∃ r, Built b t n r := by
  rw [(build_eq b t entries).1] at node
  exact exists_built_of_assemble node

/-- The nodes of the files that are found, before they know of each other. -/
def ownGraph (b : Builder) (t : FileTree) : Graph :=
  ⟨b.root, (Discovery.files t b.search).filterMap fun path =>
    (Source.record t path).toOption.map (b.nodeOf t path)⟩

/-- **What the passes do**: they give each node its importers, its exports and its role, and
leave the rest of it as it is. -/
theorem exists_build_eq (b : Builder) (t : FileTree) (entries : List String) :
    ∃ (importers : Node → List String) (exports : Node → List Export),
      (b.build t entries).1 = (b.ownGraph t).map fun n =>
        { n with
          importedBy := importers n
          exports := exports n
          role := Role.ofFile n.relative (exports n)
            (((b.ownGraph t).entryFiles b.options.extensions entries).contains n.path) } := by
  have own : (⟨b.root, nodesInOrder (Discovery.files t b.search)
      ((Discovery.files t b.search).map (b.outcomeOf t))⟩ : Graph) = b.ownGraph t := by
    rw [(right_map_outcomeOf b t _).nodesInOrder fun p hp => by rwa [map_path_map_outcomeOf]]
    simp only [node?_outcomeOf]
    rfl
  rw [(build_eq b t entries).1]
  unfold assemble
  dsimp only
  rw [own]
  generalize starsOf ((Discovery.files t b.search).map (b.outcomeOf t)) = stars
  generalize b.ownGraph t = g
  rw [Graph.entryFiles_expandStars, Graph.entryFiles_wire]
  generalize g.entryFiles b.options.extensions entries = es
  refine ⟨fun n => (g.importersOf n.path).foldl insertNew n.importedBy,
    fun n => if stars.any fun s => s.1 == n.path
      then Graph.visibleExports g.wire stars n.path else n.exports, ?_⟩
  unfold Graph.assignRoles Graph.expandStars
  -- what is seen through star exports is found in the wired graph, whatever that is
  generalize Graph.visibleExports g.wire stars = visible
  unfold Graph.wire Graph.map
  simp only [List.map_map, Function.comp_def, Graph.mk.injEq, true_and]
  refine List.map_congr_left fun n _ => ?_
  by_cases starred : stars.any fun s => s.1 == n.path
  · simp only [starred, if_true]
  · simp only [starred, Bool.false_eq_true, if_false]

/-- The node of a file that is found and has a record. -/
theorem exists_node?_build {r : Record} (found : path ∈ Discovery.files t b.search)
    (record : Source.record t path = .ok r) (entries : List String) :
    ∃ importedBy exports role, (b.build t entries).1.node? path =
      some { b.nodeOf t path r with importedBy, exports, role } := by
  obtain ⟨importers, exports, eq⟩ := exists_build_eq b t entries
  have own : (b.ownGraph t).node? path = some (b.nodeOf t path r) := by
    rcases first : (b.ownGraph t).node? path with - | n
    · have mem : b.nodeOf t path r ∈ (b.ownGraph t).nodes :=
        List.mem_filterMap.2 ⟨path, found, by rw [record]; rfl⟩
      exact absurd (beq_self_eq_true path) (List.find?_eq_none.1 first _ mem)
    · -- only the file itself gives a node of its path
      obtain ⟨p, -, node⟩ := List.mem_filterMap.1 (List.mem_of_find?_eq_some first)
      obtain ⟨r', record', rfl⟩ := Option.map_eq_some_iff.1 node
      obtain rfl : p = path := Graph.path_of_node? first
      rw [record] at record'
      obtain rfl : r = r' := Option.some.inj record'
      rfl
  rw [eq, Graph.node?_map _ fun _ => by rfl, own]
  exact ⟨_, _, _, rfl⟩

/-- A file that is an entry of a built graph is one wherever it is listed. -/
theorem role_eq_entry_of_mem_entries (h : path ∈ (b.build t entries).1.entries)
    (hn : n ∈ (b.build t entries).1.nodes) (here : n.path = path) : n.role = .entry := by
  rw [(build_eq b t entries).1] at h hn
  unfold assemble at h hn
  obtain ⟨k, hk, role, there⟩ := Graph.mem_entries.1 h
  rw [Graph.role_eq_entry_iff hn, here, ← there, ← Graph.role_eq_entry_iff hk]
  exact role

end Builder

end ModuleAtlas
