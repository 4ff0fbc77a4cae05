/-
ModuleAtlas/Proofs/ProductionUse.lean

Tests do not count in production.

A project can be read with its tests or without them.  With them the graph has more nodes,
and these take part in all that is looked for: an entry may mean one of them, they come first
where the first of several files counts, and what they export is seen through star exports.
Two things survive.  An entry that means no test means the same file in both graphs
(`entryFile?_only`), for a test in front of it would have been taken.  And a file stays out of
production by its path alone, whatever it exports (`Role.isAside_ofFile`).

Both graphs are brought back to the nodes before the passes, where the smaller one is the
larger one without its tests (`ownGraph_without_tests`).  Main result:
`production_without_tests`.
-/
import ModuleAtlas.Analysis.Usage
import ModuleAtlas.Proofs.BuiltGraph
import ModuleAtlas.Proofs.TestFiles

namespace ModuleAtlas

/-! ### Some of the files of a graph -/

/-- What is first among many is first among some, if it is one of them. -/
theorem find?_and_of_find? {α : Type} {p q : α → Bool} {xs : List α}
    (kept : ∀ a, xs.find? q = some a → p a = true) :
    xs.find? (fun a => p a && q a) = xs.find? q := by
  induction xs with
  | nil => rfl
  | cons x xs ih =>
    rcases hit : q x with - | -
    · rw [List.find?_cons_of_neg (by simp [hit]), List.find?_cons_of_neg (by simp [hit])]
      exact ih fun a ha => kept a (by rw [List.find?_cons_of_neg (by simp [hit]), ha])
    · have here : p x = true := kept x (List.find?_cons_of_pos hit)
      rw [List.find?_cons_of_pos (by simp [hit, here]), List.find?_cons_of_pos hit]

namespace Graph

variable {g : Graph} {keep : String → Bool} {extensions entries : List String} {entry : String}

/-- The graph with only those files whose paths are kept. -/
def only (g : Graph) (keep : String → Bool) : Graph :=
  { g with nodes := g.nodes.filter fun n => keep n.path }

theorem has_only (path : String) : (g.only keep).has path = (keep path && g.has path) := by
  unfold has only
  rw [List.any_filter, Bool.eq_iff_iff]
  simp only [List.any_eq_true, Bool.and_eq_true, beq_iff_eq]
  constructor
  · rintro ⟨n, hn, kept, rfl⟩
    exact ⟨kept, n, hn, rfl⟩
  · rintro ⟨kept, n, hn, rfl⟩
    exact ⟨n, hn, kept, rfl⟩

/-- What only kept files have is had by the same files. -/
theorem filter_nodes_only {p : Node → Bool}
    (kept : ∀ n ∈ g.nodes, p n = true → keep n.path = true) :
    (g.only keep).nodes.filter p = g.nodes.filter p := by
  unfold only
  rw [List.filter_filter]
  refine List.filter_congr fun n hn => ?_
  rcases has : p n with - | -
  · rw [Bool.false_and]
  · rw [Bool.true_and, kept n hn has]

/-- The source of an output: the first that the graph has. -/
def sourceOf? (g : Graph) (entry : String) : Option String :=
  (g.nodes.find? fun n => Target.isFor entry n.relative).map Node.path

theorem entryFile?_eq : g.entryFile? extensions entry =
    if namesFile entry then
      ((Resolution.candidates (Resolution.base g.root entry) extensions).find? g.has).or
        (g.sourceOf? entry)
    else none := by
  unfold entryFile? sourceOf?
  cases (Resolution.candidates (Resolution.base g.root entry) extensions).find? g.has with
  | none => rfl
  | some path => rfl

theorem find?_has_only {paths : List String}
    (kept : ∀ path, paths.find? g.has = some path → keep path = true) :
    paths.find? (g.only keep).has = paths.find? g.has := by
  rw [funext has_only]
  exact find?_and_of_find? kept

theorem sourceOf?_only (kept : ∀ path, g.sourceOf? entry = some path → keep path = true) :
    (g.only keep).sourceOf? entry = g.sourceOf? entry := by
  unfold sourceOf? at kept ⊢
  unfold only
  simp only [List.find?_filter, Bool.decide_and, Bool.decide_eq_true]
  rw [find?_and_of_find? fun n first => kept n.path (by rw [first]; rfl)]

/-- **An entry that means a kept file means it among the kept files.** -/
theorem entryFile?_only
    (kept : ∀ path, g.entryFile? extensions entry = some path → keep path = true) :
    (g.only keep).entryFile? extensions entry = g.entryFile? extensions entry := by
  rw [entryFile?_eq] at kept
  rw [entryFile?_eq, entryFile?_eq]
  have root : (g.only keep).root = g.root := rfl
  rw [root]
  split
  · next names =>
    rw [if_pos names] at kept
    generalize Resolution.candidates (Resolution.base g.root entry) extensions = paths at kept ⊢
    rcases first : paths.find? g.has with - | path
    · -- no file is where the entry points to, and the first source of it is kept
      rw [first, Option.none_or] at kept
      rw [find?_has_only (by simp [first]), first, Option.none_or, Option.none_or,
        sourceOf?_only kept]
    · rw [first, Option.some_or] at kept
      rw [find?_has_only (by rwa [first]), first, Option.some_or, Option.some_or]
  · rfl

theorem entryFiles_only (kept : ∀ e ∈ entries, ∀ path,
    g.entryFile? extensions e = some path → keep path = true) :
    (g.only keep).entryFiles extensions entries = g.entryFiles extensions entries := by
  unfold entryFiles
  rw [List.filterMap_congr fun e he => entryFile?_only (kept e he)]

end Graph

/-! ### Graphs with and without tests -/

namespace Builder

variable {b : Builder} {t : FileTree} {entries : List String} {n : Node}

theorem relative_of_mem_ownGraph (h : n ∈ (b.ownGraph t).nodes) :
    n.relative = Path.relative n.path b.root := by
  obtain ⟨path, -, node⟩ := List.mem_filterMap.1 h
  obtain ⟨r, -, rfl⟩ := Option.map_eq_some_iff.1 node
  rfl

/-- A file that goes into production by its path is no test. -/
theorem isTest_eq_false_of_mem_ownGraph (h : n ∈ (b.ownGraph t).nodes)
    (role : (Role.ofFile n.relative [] false).isAside = false) :
    Exclusion.isTest (Path.relative n.path b.root) = false := by
  rw [relative_of_mem_ownGraph h] at role
  rw [Bool.eq_false_iff]
  intro test
  have aside := Role.isAside_of_isTest (Path.slashed_relative n.path b.root) test
  rw [role] at aside
  exact Bool.false_ne_true aside

/-- The entries of a built graph, by its nodes before the passes. -/
theorem entries_build (b : Builder) (t : FileTree) (entries : List String) :
    (b.build t entries).1.entries =
      ((b.ownGraph t).nodes.filter fun n =>
        ((b.ownGraph t).entryFiles b.options.extensions entries).contains n.path).map
          Node.path := by
  obtain ⟨importers, exports, eq⟩ := exists_build_eq b t entries
  rw [eq]
  unfold Graph.entries Graph.map
  dsimp only
  rw [List.filter_map, List.map_map]
  refine congrArg (List.map Node.path) (List.filter_congr fun n _ => ?_)
  rw [Bool.eq_iff_iff, Function.comp_apply, beq_iff_eq, Role.ofFile_eq_entry_iff]

/-- The packages that a built graph uses in production, by its nodes before the passes. -/
theorem packages_build (b : Builder) (t : FileTree) (entries : List String) :
    Usage.packages (b.build t entries).1 (fun r => !r.isAside) =
      (((b.ownGraph t).nodes.filter fun n =>
        ((b.ownGraph t).entryFiles b.options.extensions entries).contains n.path
          || !(Role.ofFile n.relative [] false).isAside).flatMap fun n =>
            n.links.external).foldl insertNew [] := by
  obtain ⟨importers, exports, eq⟩ := exists_build_eq b t entries
  rw [eq]
  unfold Usage.packages Graph.map
  dsimp only
  rw [List.filter_map, List.flatMap_map]
  refine congrArg (fun ns : List Node => (ns.flatMap fun n => n.links.external).foldl insertNew [])
    (List.filter_congr fun n _ => ?_)
  rw [Function.comp_apply, Role.isAside_ofFile, Bool.not_and, Bool.not_not]

/-- The builder of a root that reads tests, or leaves them out. -/
def makeFor (tests : Bool) (t : FileTree) (root : String) (options : Options) : Builder :=
  (make t root { options with includeTests := tests }).1

@[simp] theorem root_makeFor (tests : Bool) (t : FileTree) (root : String) (options : Options) :
    (makeFor tests t root options).root = root := rfl

@[simp] theorem options_makeFor (tests : Bool) (t : FileTree) (root : String) (options : Options) :
    (makeFor tests t root options).options = { options with includeTests := tests } := rfl

/-- Of the files that are found with tests, those are found without that no pattern of tests
matches. -/
theorem takes_without_tests (t : FileTree) (root : String) (options : Options)
    (path name : String) :
    (makeFor false t root options).search.takes path name =
      ((makeFor true t root options).search.takes path name
        && !Exclusion.isTest (Path.relative path root)) := by
  have without : (makeFor false t root options).search =
      ⟨root, options.extensions,
        options.exclude ++ Exclusion.testPatterns ++ (Exclusion.ofSettings t root options).1⟩ := rfl
  have within : (makeFor true t root options).search =
      ⟨root, options.extensions,
        options.exclude ++ [] ++ (Exclusion.ofSettings t root options).1⟩ := rfl
  rw [without, within]
  unfold Discovery.Search.takes Discovery.Search.wants Exclusion.isTest Glob.anyHolds
  dsimp only
  rw [List.any_append, List.any_append, List.any_append, List.any_append, List.any_nil,
    Bool.or_false, Bool.not_or, Bool.not_or, Bool.not_or]
  generalize (!Exclusion.testPatterns.any _) = tests
  cases tests <;> simp

theorem ownGraph_without_tests (t : FileTree) (root : String) (options : Options) :
    (makeFor false t root options).ownGraph t =
      ((makeFor true t root options).ownGraph t).only fun path =>
        !Exclusion.isTest (Path.relative path root) := by
  have files : Discovery.files t (makeFor false t root options).search =
      (Discovery.files t (makeFor true t root options).search).filter fun path =>
        !Exclusion.isTest (Path.relative path root) :=
    Discovery.files_filter (by rfl) (takes_without_tests t root options) t
  have node : (makeFor false t root options).nodeOf t =
      (makeFor true t root options).nodeOf t := rfl
  unfold ownGraph Graph.only
  rw [files, node]
  dsimp only
  rw [List.filterMap_filter, List.filter_filterMap]
  refine congrArg (Graph.mk root) (List.filterMap_congr fun path _ => ?_)
  cases Source.record t path with
  | error e => exact ite_self none
  | ok r => rfl

/-- **Tests do not count in production.**  If no entry means a file of tests in the graph with
tests, then the graphs with and without tests have the same entries, and the same packages are
used in production, whatever packages are declared. -/
theorem production_without_tests (t : FileTree) (root : String) (options : Options)
    (entries : List String)
    (apart : ∀ e ∈ entries, ∀ path,
      ((makeFor true t root options).build t entries).1.entryFile? options.extensions e =
          some path →
        Exclusion.isTest (Path.relative path root) = false) :
    ((makeFor true t root options).build t entries).1.entries =
        ((makeFor false t root options).build t entries).1.entries ∧
      ∀ declared,
        (Audit.of ((makeFor true t root options).build t entries).1 declared).usedProduction =
          (Audit.of ((makeFor false t root options).build t entries).1
            declared).usedProduction := by
  -- the hypothesis, said of the nodes before the passes
  have apart : ∀ e ∈ entries, ∀ path,
      ((makeFor true t root options).ownGraph t).entryFile? options.extensions e = some path →
        (!Exclusion.isTest (Path.relative path root)) = true := by
    intro e he path means
    obtain ⟨importers, exports, eq⟩ := exists_build_eq (makeFor true t root options) t entries
    rw [Bool.not_eq_true']
    refine apart e he path ?_
    rw [eq, Graph.entryFile?_map (fun n => by rfl) (fun n => by rfl), means]
  have entry : ∀ n ∈ ((makeFor true t root options).ownGraph t).nodes,
      (((makeFor true t root options).ownGraph t).entryFiles options.extensions entries).contains
        n.path = true → (!Exclusion.isTest (Path.relative n.path root)) = true := by
    intro n _ mem
    obtain ⟨e, he, means⟩ := Graph.mem_entryFiles.1 (List.contains_iff_mem.1 mem)
    exact apart e he n.path means
  constructor
  · rw [entries_build, entries_build, ownGraph_without_tests, options_makeFor, options_makeFor,
      Graph.entryFiles_only apart, Graph.filter_nodes_only]
    exact entry
  · intro declared
    show sorted (Usage.packages _ _) = sorted (Usage.packages _ _)
    rw [packages_build, packages_build, ownGraph_without_tests, options_makeFor, options_makeFor,
      Graph.entryFiles_only apart, Graph.filter_nodes_only]
    intro n hn counts
    rw [Bool.or_eq_true, Bool.not_eq_true'] at counts
    rcases counts with named | role
    · exact entry n hn named
    · have plain := isTest_eq_false_of_mem_ownGraph hn role
      rwa [root_makeFor, ← Bool.not_eq_true'] at plain

/-- A file and a test of it, each with a package of its own. -/
def testedFile : FileTree :=
  .folder
    [("a.ts", .file "import'x'".toUTF8.toList),
     ("__tests__", .folder [("a.ts", .file "import'y'".toUTF8.toList)])]

/-- The test is found, and the entry that names the file does not mean it. -/
theorem production_without_tests_of_file :
    Discovery.files testedFile (makeFor true testedFile "/" {}).search
        = ["/a.ts", "/__tests__/a.ts"] ∧
      ((makeFor true testedFile "/" {}).build testedFile ["./a"]).1.entries =
        ((makeFor false testedFile "/" {}).build testedFile ["./a"]).1.entries ∧
      ∀ declared,
        (Audit.of ((makeFor true testedFile "/" {}).build testedFile ["./a"]).1
            declared).usedProduction =
          (Audit.of ((makeFor false testedFile "/" {}).build testedFile ["./a"]).1
            declared).usedProduction := by
  have means : ((makeFor true testedFile "/" {}).build testedFile ["./a"]).1.entryFile?
      ({} : Options).extensions "./a" = some "/a.ts" := by decide +kernel
  refine ⟨by decide +kernel, production_without_tests testedFile "/" {} ["./a"] ?_⟩
  intro e he path found
  obtain rfl := List.mem_singleton.1 he
  rw [means] at found
  obtain rfl := Option.some.inj found
  decide +kernel

end Builder

end ModuleAtlas
