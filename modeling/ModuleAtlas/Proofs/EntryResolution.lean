/-
ModuleAtlas/Proofs/EntryResolution.lean

Entries of a build and imports from its root.

The two are looked up along the same paths in the same order.  An import takes the first path at
which the tree has a file, an entry the first at which the graph has a node.  The tree may have
files that are no nodes: such as are ignored or left out, and such as cannot be read.  But there
is no node without its file (`hasFile_of_has_build`).  So in front of the file that an import finds
there is no node either, and where that file is a node, the entry means it
(`entryFile?_of_resolve`).

What entries mean is looked up before the roles are given, and giving them moves no file:
the files in the role of an entry are those that the entries of the build mean in the graph as it
is built (`mem_entries_build_iff`).  Main result: `entries_resolve_as_imports`.
-/
import ModuleAtlas.Proofs.EntryTargets

namespace ModuleAtlas

/-! ### Files that were read -/

theorem FileTree.hasFile_of_read {t : FileTree} {path : String} {bytes : List UInt8}
    (h : t.read path = .ok bytes) : t.hasFile path = true := by
  unfold FileTree.read at h
  unfold FileTree.hasFile FileTree.find?
  split at h
  · next found =>
    rw [found]
    rfl
  all_goals cases h

/-- A path with a record is that of a file. -/
theorem Source.hasFile_of_record {t : FileTree} {path : String} {r : Record}
    (h : Source.record t path = .ok r) : t.hasFile path = true := by
  cases content : t.read path with
  | ok bytes => exact FileTree.hasFile_of_read content
  | error fault =>
    unfold Source.record FileTree.readText at h
    rw [content] at h
    cases dialect : Source.dialect path with
    | error e =>
      rw [dialect] at h
      cases h
    | ok d =>
      rw [dialect] at h
      cases h

namespace Graph

variable {g : Graph} {extensions : List String} {entry path : String}

theorem namesFile_iff :
    namesFile entry = true ↔ entry ≠ "" ∧ entry.toList.head? ≠ some '!' ∧ '*' ∉ entry.toList := by
  unfold namesFile
  simp [and_assoc]

/-- Where every node of a graph has its file, an entry means the file that an import from the root
means, if that is a node. -/
theorem entryFile?_of_resolve {t : FileTree} (files : ∀ p, g.has p = true → t.hasFile p = true)
    (names : namesFile entry = true)
    (resolved : Resolution.resolve t extensions g.root entry = some path)
    (has : g.has path = true) : g.entryFile? extensions entry = some path := by
  unfold Resolution.resolve at resolved
  have nodes : g.has = fun p => g.has p && t.hasFile p := by
    funext p
    cases node : g.has p with
    | false => rfl
    | true => rw [files p node, Bool.and_self]
  -- the first file is a node, so it is the first node as well
  have first : (Resolution.candidates (Resolution.base g.root entry) extensions).find? g.has
      = some path := by
    rw [nodes, find?_and_of_find?, resolved]
    intro p found
    obtain rfl := Option.some.inj (resolved.symm.trans found)
    exact has
  rw [entryFile?_eq, if_pos names, first, Option.some_or]

end Graph

namespace Builder

variable {b : Builder} {t : FileTree} {entries : List String} {path : String}

/-- Each node of a built graph is that of a file of the tree. -/
theorem hasFile_of_has_build (h : (b.build t entries).1.has path = true) :
    t.hasFile path = true := by
  obtain ⟨n, node⟩ := Graph.exists_node?_of_has h
  obtain ⟨r, built⟩ := exists_built node
  rw [← Graph.path_of_node? node]
  exact Source.hasFile_of_record built.record

/-- The files that play the role of an entry are those that the entries of the build mean. -/
theorem mem_entries_build_iff :
    path ∈ (b.build t entries).1.entries ↔
      path ∈ (b.build t entries).1.entryFiles b.options.extensions entries := by
  obtain ⟨importers, exports, eq⟩ := exists_build_eq b t entries
  rw [eq, Graph.entryFiles_map (fun _ => by rfl) (fun _ => by rfl), Graph.mem_entries]
  constructor
  · rintro ⟨n, hn, role, rfl⟩
    obtain ⟨k, -, rfl⟩ := List.mem_map.1 hn
    exact List.contains_iff_mem.1 (Role.ofFile_eq_entry_iff.1 role)
  · intro listed
    obtain ⟨e, -, found⟩ := Graph.mem_entryFiles.1 listed
    -- what an entry means is the path of a node
    obtain ⟨k, hk, rfl⟩ : ∃ k ∈ (b.ownGraph t).nodes, k.path = path := by
      rcases (Graph.cases_of_entryFile? found).2 with ⟨-, has⟩ | ⟨k, hk, same, -⟩
      · obtain ⟨k, node⟩ := Graph.exists_node?_of_has has
        exact ⟨k, List.mem_of_find?_eq_some node, Graph.path_of_node? node⟩
      · exact ⟨k, hk, same⟩
    refine ⟨_, List.mem_map.2 ⟨k, hk, rfl⟩, ?_, rfl⟩
    exact Role.ofFile_eq_entry_iff.2 (List.contains_iff_mem.2 listed)

/-- **Entries are resolved as imports are.**  Let an entry name one file, and let an import of the
same text from the root mean a file that is a node of the built graph: then this file, and no
other, is what the entry means.  The nodes in the role of an entry are exactly the files that the
entries of the build mean. -/
theorem entries_resolve_as_imports (b : Builder) (t : FileTree) (entries : List String) :
    (∀ entry path, entry ≠ "" → entry.toList.head? ≠ some '!' → '*' ∉ entry.toList →
      Resolution.resolve t b.options.extensions b.root entry = some path →
      (b.build t entries).1.has path = true →
        (b.build t entries).1.entryFiles b.options.extensions [entry] = [path]) ∧
    ∀ path, path ∈ (b.build t entries).1.entries ↔
      path ∈ (b.build t entries).1.entryFiles b.options.extensions entries := by
  refine ⟨?_, fun path => mem_entries_build_iff⟩
  intro entry path full included starless resolved has
  have names : Graph.namesFile entry = true := Graph.namesFile_iff.2 ⟨full, included, starless⟩
  rw [← root_build b t entries] at resolved
  have found := Graph.entryFile?_of_resolve (fun p => hasFile_of_has_build) names resolved has
  unfold Graph.entryFiles
  rw [List.filterMap_cons_some found]
  rfl

/-- The folder of an index is an entry that means the index, as an import of the folder does. -/
theorem entries_resolve_as_imports_index :
    Resolution.resolve (inSources "index.ts") ({} : Options).extensions "/" "./src"
        = some "/src/index.ts" ∧
      (graphOf "index.ts" "./src").has "/src/index.ts" = true ∧
      (graphOf "index.ts" "./src").entryFiles ({} : Options).extensions ["./src"]
        = ["/src/index.ts"] ∧
      "/src/index.ts" ∈ (graphOf "index.ts" "./src").entries := by
  have resolved : Resolution.resolve (inSources "index.ts") ({} : Options).extensions "/" "./src"
      = some "/src/index.ts" := by decide +kernel
  have has : (graphOf "index.ts" "./src").has "/src/index.ts" = true := by decide +kernel
  obtain ⟨means, role⟩ := entries_resolve_as_imports (make (inSources "index.ts") "/" {}).1
    (inSources "index.ts") ["./src"]
  have files := means "./src" "/src/index.ts" (by decide) (by decide) (by decide) resolved has
  refine ⟨resolved, has, files, (role "/src/index.ts").2 ?_⟩
  rw [files]
  exact List.mem_singleton.2 rfl

end Builder

end ModuleAtlas
