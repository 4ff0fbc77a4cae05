/-
ModuleAtlas/Proofs/ReverseEdges.lean

Who imports from a file.

The links of a node lead to files, some of which have no node of their own.  Once all nodes
are known, `Graph.wire` turns the links around, and the passes behind it change exports and
roles only.  `Graph.Reversed` says what a graph has then: the importers that its nodes list
are the links of its nodes read backwards.  `reversed_wire` is the pass that brings it about,
and it needs to know of the nodes before that they list nobody and that nodes of one path
have the same links; `reversed_map` is what every later pass keeps.

Main result: `build_reversed`.
-/
import ModuleAtlas.Proofs.BuiltGraph

namespace ModuleAtlas

namespace Graph

variable {g : Graph} {path p : String}

/-- The nodes know who imports from them. -/
structure Reversed (g : Graph) : Prop where
  /-- A file lists another one as its importer exactly if that one imports from it. -/
  inverse : ∀ a ∈ g.nodes, ∀ b ∈ g.nodes, a.path ∈ b.importedBy ↔ b.path ∈ a.links.targets
  /-- All importers are files of the graph. -/
  inside : ∀ b ∈ g.nodes, ∀ p ∈ b.importedBy, p ∈ g.paths
  /-- Each importer is listed once. -/
  once : ∀ b ∈ g.nodes, b.importedBy.Nodup

theorem mem_importersOf :
    p ∈ g.importersOf path ↔ ∃ n ∈ g.nodes, path ∈ n.links.targets ∧ n.path = p := by
  unfold importersOf
  simp only [List.mem_map, List.mem_filter, List.contains_iff_mem, and_assoc]

/-- **Links are turned around** in a graph whose nodes list no importers yet and where the
nodes of one path have the same links. -/
theorem reversed_wire (bare : ∀ n ∈ g.nodes, n.importedBy = [])
    (same : ∀ a ∈ g.nodes, ∀ b ∈ g.nodes, a.path = b.path → a.links = b.links) :
    g.wire.Reversed := by
  have importers : ∀ k ∈ g.nodes, ∀ p,
      p ∈ (g.importersOf k.path).foldl insertNew k.importedBy ↔ p ∈ g.importersOf k.path := by
    intro k hk p
    rw [mem_foldl_insertNew, bare k hk]
    simp
  refine ⟨?_, ?_, ?_⟩
  · intro a ha b hb
    obtain ⟨j, hj, rfl⟩ := List.mem_map.1 ha
    obtain ⟨k, hk, rfl⟩ := List.mem_map.1 hb
    show j.path ∈ (g.importersOf k.path).foldl insertNew k.importedBy ↔ k.path ∈ j.links.targets
    rw [importers k hk, mem_importersOf]
    constructor
    · rintro ⟨n, hn, target, here⟩
      rwa [same n hn j hj here] at target
    · intro target
      exact ⟨j, hj, target, rfl⟩
  · intro b hb p hp
    obtain ⟨k, hk, rfl⟩ := List.mem_map.1 hb
    obtain ⟨n, hn, -, rfl⟩ := mem_importersOf.1 ((importers k hk p).1 hp)
    rw [paths_wire]
    exact List.mem_map_of_mem hn
  · intro b hb
    obtain ⟨k, hk, rfl⟩ := List.mem_map.1 hb
    refine nodup_foldl_insertNew ?_
    rw [bare k hk]
    exact List.nodup_nil

/-- A change of nodes that keeps their paths, their links and their importers keeps what they
know of each other. -/
theorem reversed_map {f : Node → Node} (path : ∀ n, (f n).path = n.path)
    (links : ∀ n, (f n).links = n.links) (importedBy : ∀ n, (f n).importedBy = n.importedBy) :
    (g.map f).Reversed ↔ g.Reversed := by
  have nodes : (g.map f).nodes = g.nodes.map f := rfl
  constructor
  · rintro ⟨inverse, inside, once⟩
    simp only [nodes, List.forall_mem_map, path, links, importedBy, paths_map path]
      at inverse inside once
    exact ⟨inverse, inside, once⟩
  · rintro ⟨inverse, inside, once⟩
    refine ⟨?_, ?_, ?_⟩
    all_goals simp only [nodes, List.forall_mem_map, path, links, importedBy, paths_map path]
    exacts [inverse, inside, once]

theorem reversed_expandStars (stars : Stars) : (g.expandStars stars).Reversed ↔ g.Reversed := by
  refine reversed_map ?_ ?_ ?_
  all_goals
    intro n
    split <;> rfl

theorem reversed_assignRoles (es : List String) : (g.assignRoles es).Reversed ↔ g.Reversed :=
  reversed_map (fun _ => rfl) (fun _ => rfl) (fun _ => rfl)

end Graph

namespace Builder

/-- **Importers are links read backwards.**  In every built graph a file is listed with another
one exactly if that one is among the files that it imports from, and all that is listed are
files of the graph.  The passes behind the one that turns the links around leave this as it
is: star exports, and the roles of files with whatever entries were found. -/
theorem build_reversed (b : Builder) (t : FileTree) (entries : List String) :
    (b.build t entries).1.Reversed ∧
      ∀ g : Graph,
        (∀ stars, (g.expandStars stars).Reversed ↔ g.Reversed) ∧
        ∀ extensions paths,
          (g.assignRoles (g.entryFiles extensions paths)).Reversed ↔ g.Reversed := by
  refine ⟨?_, fun g => ⟨Graph.reversed_expandStars, fun _ _ => Graph.reversed_assignRoles _⟩⟩
  rw [(build_eq b t entries).1]
  unfold assemble
  rw [Graph.reversed_assignRoles, Graph.reversed_expandStars]
  apply Graph.reversed_wire
  · intro n hn
    obtain ⟨p, r, -, -, rfl⟩ := exists_nodeOf hn
    rfl
  · -- a path has one record, and the record decides on the links
    intro n hn n' hn' here
    obtain ⟨p, r, -, record, rfl⟩ := exists_nodeOf hn
    obtain ⟨p', r', -, record', rfl⟩ := exists_nodeOf hn'
    obtain rfl : p = p' := here
    obtain rfl : r = r' := Except.ok.inj (record.symm.trans record')
    rfl

end Builder

end ModuleAtlas
