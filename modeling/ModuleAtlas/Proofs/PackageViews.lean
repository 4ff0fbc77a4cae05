/-
ModuleAtlas/Proofs/PackageViews.lean

Three views of the packages in use.

The list of packages goes by the names that each file lists, the usage of packages by the imports
that each file keeps, and the audit by the names again, apart for files that go into production
and files that do not.  They agree because a file lists the packages of the imports that it keeps
and no others: `Links.Packed`, which every import that is put into the links keeps.

All three are then told by one list, the names of the packages in use by order
(`PackageUsage.all_eq`, `externalPackages_eq`, `mem_packages`).  Main result: `package_views_agree`.
-/
import ModuleAtlas.Analysis.Usage
import ModuleAtlas.Proofs.Linking

namespace ModuleAtlas

/-! ### Texts in order -/

theorem sorted_perm (xs : List String) : (sorted xs).Perm xs := List.mergeSort_perm xs _

theorem mem_sorted {xs : List String} {x : String} : x ∈ sorted xs ↔ x ∈ xs :=
  (sorted_perm xs).mem_iff

theorem pairwise_sorted (xs : List String) : (sorted xs).Pairwise (· ≤ ·) := by
  have order : (sorted xs).Pairwise fun a b => decide (a ≤ b) = true := by
    apply List.pairwise_mergeSort
    · intro a b c hab hbc
      exact decide_eq_true (String.le_trans (of_decide_eq_true hab) (of_decide_eq_true hbc))
    · intro a b
      simpa using String.le_total a b
  exact order.imp of_decide_eq_true

/-- Texts in order are in the one order that there is. -/
theorem eq_sorted_of_perm {xs ys : List String} (order : xs.Pairwise (· ≤ ·)) (perm : xs.Perm ys) :
    xs = sorted ys :=
  List.Perm.eq_of_pairwise (fun _ _ _ _ => String.le_antisymm) order (pairwise_sorted ys)
    (perm.trans (sorted_perm ys).symm)

theorem pairwise_lt_sorted {xs : List String} (once : xs.Nodup) : (sorted xs).Pairwise (· < ·) := by
  have once' : (sorted xs).Nodup := (sorted_perm xs).nodup_iff.2 once
  refine ((pairwise_sorted xs).and once').imp ?_
  rintro a b ⟨le, ne⟩
  rw [← String.not_le]
  exact fun ge => ne (String.le_antisymm le ge)

/-! ### What a file lists and what it keeps -/

namespace Links

variable {l : Links} {means : String → Option String}

/-- The packages that are listed are those of the imports that are kept. -/
structure Packed (l : Links) : Prop where
  /-- Each import that is kept names a package. -/
  named : ∀ i ∈ l.packaged, ∃ p, i.package = some p
  listed : ∀ p, p ∈ l.external ↔ ∃ i ∈ l.packaged, i.package = some p

theorem packed_empty : ({} : Links).Packed :=
  ⟨nofun, fun p => by simp⟩

theorem Packed.put (h : l.Packed) (i : Import) : (l.put means i).Packed := by
  unfold Links.put
  split
  · next package some =>
    refine ⟨?_, ?_⟩
    · intro j hj
      rcases List.mem_append.1 hj with hj | hj
      · exact h.named j hj
      · obtain rfl := List.mem_singleton.1 hj
        exact ⟨package, some⟩
    · intro p
      show p ∈ insertNew l.external package ↔ ∃ j ∈ l.packaged ++ [i], j.package = .some p
      rw [mem_insertNew, h.listed p]
      constructor
      · rintro (⟨j, hj, names⟩ | rfl)
        · exact ⟨j, List.mem_append_left _ hj, names⟩
        · exact ⟨i, List.mem_append_right _ (List.mem_singleton.2 rfl), some⟩
      · rintro ⟨j, hj, names⟩
        rcases List.mem_append.1 hj with hj | hj
        · exact .inl ⟨j, hj, names⟩
        · obtain rfl := List.mem_singleton.1 hj
          exact .inr (Option.some.inj (names.symm.trans some))
  · -- an import of a file is kept elsewhere
    split <;> exact ⟨h.named, h.listed⟩

theorem packed_ofImports (is : List Import) : (ofImports means is).Packed := by
  unfold ofImports
  have run : ∀ l : Links, l.Packed → (is.foldl (Links.put means) l).Packed := by
    induction is with
    | nil => exact fun l h => h
    | cons i is ih => exact fun l h => ih (l.put means i) (h.put i)
  exact run {} packed_empty

end Links

/-- The links of the node are those that a builder makes of the record of its file. -/
def Node.IsLinked (n : Node) : Prop :=
  ∃ (b : Builder) (t : FileTree) (r : Record), n.links = (b.node t n.path r).1.links

theorem Node.IsLinked.packed {n : Node} (h : n.IsLinked) : n.links.Packed := by
  obtain ⟨b, t, r, eq⟩ := h
  rw [eq, (Builder.node_spec b t n.path r).1]
  exact Links.packed_ofImports r.imports

/-! ### The names of the packages in use -/

variable {g : Graph} {d : Dependencies} {p : String}

theorem Usage.mem_packages {q : Role → Bool} :
    p ∈ packages g q ↔ ∃ n ∈ g.nodes, q n.role = true ∧ p ∈ n.links.external := by
  unfold packages
  rw [mem_foldl_insertNew]
  simp only [List.not_mem_nil, false_or, List.mem_flatMap, List.mem_filter, and_assoc]

/-- The packages in use, each once and by name. -/
def Graph.packageNames (g : Graph) : List String := sorted (Usage.packages g fun _ => true)

theorem Graph.mem_packageNames :
    p ∈ g.packageNames ↔ ∃ n ∈ g.nodes, p ∈ n.links.external := by
  unfold packageNames
  rw [mem_sorted, Usage.mem_packages]
  simp only [true_and]

theorem Graph.nodup_packages (g : Graph) (q : Role → Bool) : (Usage.packages g q).Nodup :=
  nodup_foldl_insertNew List.nodup_nil

theorem Graph.nodup_packageNames (g : Graph) : g.packageNames.Nodup :=
  (sorted_perm _).nodup_iff.2 (g.nodup_packages _)

/-- The files that use a package. -/
def Graph.usersOf (g : Graph) (p : String) : List Node :=
  g.nodes.filter fun n => n.links.external.contains p

theorem Graph.mem_usersOf {n : Node} : n ∈ g.usersOf p ↔ n ∈ g.nodes ∧ p ∈ n.links.external := by
  unfold usersOf
  rw [List.mem_filter, List.contains_iff_mem]

theorem externalPackages_eq (g : Graph) (d : Dependencies) :
    externalPackages g d = g.packageNames.map fun p =>
      { name := p
        usedBy := (g.usersOf p).map Node.relative
        isDeclared := d.all.contains p
        isAside := (g.usersOf p).all fun n => n.role.isAside } := rfl

theorem map_name_externalPackages (g : Graph) (d : Dependencies) :
    (externalPackages g d).map ExternalPackage.name = g.packageNames := by
  rw [externalPackages_eq, List.map_map]
  exact List.map_id g.packageNames

/-! ### The imports that are kept -/

namespace PackageUsage

/-- The imports of a package in a graph. -/
def sitesOf (g : Graph) (p : String) : List UsageSite :=
  ((sitesIn g).filter fun s => s.1 == p).map Prod.snd

theorem mem_sitesIn (packed : ∀ n ∈ g.nodes, n.links.Packed) {s : UsageSite} :
    (p, s) ∈ sitesIn g ↔
      ∃ n ∈ g.nodes, ∃ i ∈ n.links.packaged, i.package = some p ∧ site n.relative i = s := by
  unfold sitesIn
  simp only [List.mem_flatMap, List.mem_map, Prod.mk.injEq]
  constructor
  · rintro ⟨n, hn, i, hi, names, rfl⟩
    obtain ⟨q, some⟩ := (packed n hn).named i hi
    rw [some, Option.getD_some] at names
    exact ⟨n, hn, i, hi, by rw [some, names], rfl⟩
  · rintro ⟨n, hn, i, hi, some, rfl⟩
    exact ⟨n, hn, i, hi, by rw [some, Option.getD_some], rfl⟩

theorem mem_map_fst_sitesIn (packed : ∀ n ∈ g.nodes, n.links.Packed) :
    p ∈ (sitesIn g).map Prod.fst ↔ ∃ n ∈ g.nodes, p ∈ n.links.external := by
  rw [List.mem_map]
  constructor
  · rintro ⟨⟨_, s⟩, mem, rfl⟩
    obtain ⟨n, hn, i, hi, some, -⟩ := (mem_sitesIn packed).1 mem
    exact ⟨n, hn, ((packed n hn).listed _).2 ⟨i, hi, some⟩⟩
  · rintro ⟨n, hn, listed⟩
    obtain ⟨i, hi, some⟩ := ((packed n hn).listed p).1 listed
    exact ⟨_, (mem_sitesIn packed).2 ⟨n, hn, i, hi, some, rfl⟩, rfl⟩

/-- The packages of the imports that are kept are the packages in use. -/
theorem all_eq (packed : ∀ n ∈ g.nodes, n.links.Packed) (d : Dependencies) :
    all g d = g.packageNames.map fun p => ⟨p, Category.of d p, sitesOf g p⟩ := by
  have names : sorted (((sitesIn g).map Prod.fst).foldl insertNew []) = g.packageNames := by
    refine eq_sorted_of_perm (pairwise_sorted _) ((sorted_perm _).trans ?_)
    refine (List.perm_ext_iff_of_nodup (nodup_foldl_insertNew List.nodup_nil)
      (g.nodup_packages _)).2 fun p => ?_
    show p ∈ ((sitesIn g).map Prod.fst).foldl insertNew [] ↔ p ∈ Usage.packages g fun _ => true
    rw [mem_foldl_insertNew, mem_map_fst_sitesIn packed, Usage.mem_packages]
    simp only [List.not_mem_nil, false_or, true_and]
  unfold all
  dsimp only
  rw [names]
  rfl

/-- The files with imports of a package are those that list it, if no two files look alike. -/
theorem perm_files (packed : ∀ n ∈ g.nodes, n.links.Packed)
    (apart : (g.nodes.map Node.relative).Nodup) (c : Category) :
    (PackageUsage.mk p c (sitesOf g p)).files.Perm ((g.usersOf p).map Node.relative) := by
  have once : ((g.usersOf p).map Node.relative).Nodup :=
    apart.sublist (List.filter_sublist.map Node.relative)
  refine (List.perm_ext_iff_of_nodup (nodup_foldl_insertNew List.nodup_nil) once).2 fun f => ?_
  show f ∈ ((sitesOf g p).map UsageSite.file).foldl insertNew [] ↔ _
  rw [mem_foldl_insertNew]
  simp only [List.not_mem_nil, false_or, List.mem_map, Graph.mem_usersOf, sitesOf, List.mem_filter,
    beq_iff_eq]
  constructor
  · rintro ⟨s, ⟨⟨q, s⟩, ⟨mem, rfl⟩, rfl⟩, rfl⟩
    obtain ⟨n, hn, i, hi, some, rfl⟩ := (mem_sitesIn packed).1 mem
    exact ⟨n, ⟨hn, ((packed n hn).listed _).2 ⟨i, hi, some⟩⟩, rfl⟩
  · rintro ⟨n, ⟨hn, listed⟩, rfl⟩
    obtain ⟨i, hi, some⟩ := ((packed n hn).listed p).1 listed
    exact ⟨_, ⟨(p, site n.relative i), ⟨(mem_sitesIn packed).2 ⟨n, hn, i, hi, some, rfl⟩, rfl⟩, rfl⟩,
      rfl⟩

end PackageUsage

theorem Category.of_eq_unlisted_iff : Category.of d p = .unlisted ↔ p ∉ d.all := by
  unfold Category.of Dependencies.all
  simp only [List.contains_iff_mem, List.mem_append]
  split
  · next listed => simp [listed]
  · split
    · next listed => simp [listed]
    · split
      · next listed => simp [listed]
      · next production development peer => simp [production, development, peer]

/-! ### The audit -/

/-- The packages that the audit takes for used are the packages in use. -/
theorem mem_used :
    p ∈ (Usage.packages g Role.isAside).foldl insertNew (Usage.packages g fun r => !r.isAside) ↔
      p ∈ g.packageNames := by
  rw [mem_foldl_insertNew, Usage.mem_packages, Usage.mem_packages, Graph.mem_packageNames]
  constructor
  · rintro (⟨n, hn, -, listed⟩ | ⟨n, hn, -, listed⟩) <;> exact ⟨n, hn, listed⟩
  · rintro ⟨n, hn, listed⟩
    rcases role : n.role.isAside with - | -
    · exact .inl ⟨n, hn, by simp [role], listed⟩
    · exact .inr ⟨n, hn, role, listed⟩

theorem Audit.unlisted_eq (g : Graph) (d : Dependencies) :
    (Audit.of g d).unlisted =
      g.packageNames.filter fun p => !d.all.contains p && !Specifier.isBuiltin p := by
  unfold Audit.of
  dsimp only
  symm
  refine eq_sorted_of_perm ((pairwise_sorted _).filter _) (List.Perm.filter _ ?_)
  exact (List.perm_ext_iff_of_nodup g.nodup_packageNames
    (nodup_foldl_insertNew (g.nodup_packages _))).2 fun p => mem_used.symm

theorem Audit.unused_eq (g : Graph) (d : Dependencies) :
    (Audit.of g d).unused =
      (d.production ++ d.development).filter fun p => decide (p ∉ g.packageNames) := by
  unfold Audit.of
  dsimp only
  refine List.filter_congr fun p _ => ?_
  rw [Bool.eq_iff_iff, Bool.not_eq_true', decide_eq_true_eq, ← mem_used, ← List.contains_iff_mem,
    Bool.not_eq_true]

/-- A package that only files aside of production use is in use by some of them and by no other. -/
theorem Audit.misplaced_eq (g : Graph) (d : Dependencies) :
    (Audit.of g d).misplaced = d.production.filter fun p =>
      decide (p ∈ g.packageNames) && (g.usersOf p).all fun n => n.role.isAside := by
  unfold Audit.of
  dsimp only
  refine List.filter_congr fun p _ => ?_
  rw [Bool.eq_iff_iff]
  simp only [Bool.and_eq_true, Bool.not_eq_true', List.contains_iff_mem, decide_eq_true_eq,
    List.all_eq_true, Usage.mem_packages, Graph.mem_packageNames, Graph.mem_usersOf,
    ← Bool.not_eq_true]
  constructor
  · rintro ⟨⟨n, hn, -, listed⟩, none⟩
    refine ⟨⟨n, hn, listed⟩, fun m hm => ?_⟩
    rcases role : m.role.isAside with - | -
    · exact absurd ⟨m, hm.1, by simp [role], hm.2⟩ none
    · rfl
  · rintro ⟨⟨n, hn, listed⟩, all⟩
    refine ⟨⟨n, hn, all n ⟨hn, listed⟩, listed⟩, ?_⟩
    rintro ⟨m, hm, role, listed'⟩
    exact role (all m ⟨hm, listed'⟩)

/-! ### The three views -/

/-- **The views of packages agree.**  Let the links of all files be made of their records, and let
no two files look alike from the root.  Then the usage and the list of packages have the same
names in the same strict order; what they say of one package is the same as to whether it is declared
and how many files use it; and the audit can be read off the list. -/
theorem package_views_agree (g : Graph) (d : Dependencies)
    (linked : ∀ n ∈ g.nodes, n.IsLinked) (apart : (g.nodes.map Node.relative).Nodup) :
    (PackageUsage.all g d).map PackageUsage.package =
        (externalPackages g d).map ExternalPackage.name ∧
      ((externalPackages g d).map ExternalPackage.name).Pairwise (· < ·) ∧
      (∀ u ∈ PackageUsage.all g d, ∀ e ∈ externalPackages g d, u.package = e.name →
        (u.declaredAs = .unlisted ↔ e.isDeclared = false) ∧
          u.files.length = e.usedBy.length) ∧
      (Audit.of g d).unlisted =
        ((externalPackages g d).filter fun e =>
          !e.isDeclared && !Specifier.isBuiltin e.name).map ExternalPackage.name ∧
      (Audit.of g d).unused =
        (d.production ++ d.development).filter (fun p =>
          decide (p ∉ (externalPackages g d).map ExternalPackage.name)) ∧
      (Audit.of g d).misplaced =
        d.production.filter fun p =>
          (externalPackages g d).any fun e => e.name == p && e.isAside := by
  have packed : ∀ n ∈ g.nodes, n.links.Packed := fun n hn => (linked n hn).packed
  rw [map_name_externalPackages, PackageUsage.all_eq packed, Audit.unlisted_eq, Audit.unused_eq,
    Audit.misplaced_eq, externalPackages_eq]
  refine ⟨?_, pairwise_lt_sorted (g.nodup_packages _), ?_, ?_, rfl, ?_⟩
  · rw [List.map_map]
    exact List.map_id g.packageNames
  · intro u hu e he same
    obtain ⟨p, -, rfl⟩ := List.mem_map.1 hu
    obtain ⟨q, -, rfl⟩ := List.mem_map.1 he
    obtain rfl : p = q := same
    refine ⟨?_, ?_⟩
    · show Category.of d p = .unlisted ↔ d.all.contains p = false
      rw [Category.of_eq_unlisted_iff, ← Bool.not_eq_true, List.contains_iff_mem]
    · show _ = ((g.usersOf p).map Node.relative).length
      exact (PackageUsage.perm_files packed apart _).length_eq
  · rw [List.filter_map, List.map_map]
    exact (List.map_id _).symm
  · refine List.filter_congr fun p _ => ?_
    rw [List.any_map, Bool.eq_iff_iff]
    simp only [Bool.and_eq_true, decide_eq_true_eq, List.any_eq_true, Function.comp_apply,
      beq_iff_eq]
    constructor
    · rintro ⟨used, aside⟩
      exact ⟨p, used, rfl, aside⟩
    · rintro ⟨q, used, rfl, aside⟩
      exact ⟨used, aside⟩

/-- A file of a role with some imports, in a tree without other files. -/
def Node.alone (path : String) (role : Role) (imports : List Import) : Node :=
  { (Builder.node { root := "/" } .empty path { imports }).1 with role }

theorem Node.isLinked_alone (path : String) (role : Role) (imports : List Import) :
    (Node.alone path role imports).IsLinked :=
  ⟨{ root := "/" }, .empty, { imports }, rfl⟩

/-- A file with two packages, and a test of it that imports a third one twice. -/
def fileWithTest : Graph where
  root := "/"
  nodes :=
    [.alone "/a.ts" .unknown
      [{ specifier := "x/sub", package := some "x" }, { specifier := "fs", package := some "fs" }],
     .alone "/a.test.ts" .test
      [{ specifier := "y", package := some "y" }, { specifier := "./a" },
        { specifier := "y/sub", package := some "y" }]]

/-- The package of the test is declared for production. -/
theorem package_views_agree_tested :
    (∀ n ∈ fileWithTest.nodes, n.IsLinked) ∧ (fileWithTest.nodes.map Node.relative).Nodup ∧
      (PackageUsage.all fileWithTest { production := ["y", "z"] }).map PackageUsage.package =
        (externalPackages fileWithTest { production := ["y", "z"] }).map ExternalPackage.name ∧
      (["y", "z"].filter fun p =>
        (externalPackages fileWithTest { production := ["y", "z"] }).any fun e =>
          e.name == p && e.isAside) = ["y"] := by
  have linked : ∀ n ∈ fileWithTest.nodes, n.IsLinked := by
    intro n hn
    rcases List.mem_cons.1 hn with rfl | hn
    · exact Node.isLinked_alone _ _ _
    · obtain rfl := List.mem_singleton.1 hn
      exact Node.isLinked_alone _ _ _
  have apart : (fileWithTest.nodes.map Node.relative).Nodup := by decide +kernel
  obtain ⟨names, -, -, -, -, misplaced⟩ :=
    package_views_agree fileWithTest { production := ["y", "z"] } linked apart
  have audited : (Audit.of fileWithTest { production := ["y", "z"] }).misplaced = ["y"] := by
    decide +kernel
  exact ⟨linked, apart, names, misplaced.symm.trans audited⟩

end ModuleAtlas
