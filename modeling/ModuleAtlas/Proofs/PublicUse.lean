/-
ModuleAtlas/Proofs/PublicUse.lean

What an entry makes public is in use.

The report of unused exports goes by the names that imports take from a file
(`mem_namesOf_names`) and does not look at what passes names on.  A way of re-exports from
an entry goes by exports alone.  The two agree because each re-export of a built graph has
an import of the same module, which takes the name that is passed on or the whole module
(`Built.exists_import`).  So the last file on the way takes the defined name from the file
that defines it (`Built.taken`), and a way without a re-export ends at the entry itself,
whose exports are not reported.

Main result: `public_not_unused`.
-/
import ModuleAtlas.Analysis.Usage
import ModuleAtlas.Proofs.BuiltGraph
import ModuleAtlas.Proofs.ScriptRecords
import ModuleAtlas.Proofs.Trace

namespace ModuleAtlas

/-! ### Names that are taken from a file -/

namespace Usage

variable {g : Graph} {used : List (String × List String)} {path target m : String}
  {i : Import} {is : List Import}

/-- The names of a file grow by those that imports of it take; those of others stay. -/
theorem mem_namesOf_addNames :
    m ∈ namesOf (addNames g used target is) path ↔
      m ∈ namesOf used path ∨ path = target ∧ ∃ i ∈ is, m ∈ namesTaken g path i := by
  unfold namesOf addNames
  dsimp only
  split
  · next listed =>
    rw [List.find?_map]
    have keeps : ((fun u : String × List String => u.1 == path) ∘ fun u =>
        if u.1 == target then (u.1, (is.flatMap (namesTaken g target)).foldl insertNew u.2) else u)
          = fun u => u.1 == path := by
      funext u
      rw [Function.comp_apply]
      split <;> rfl
    rw [keeps]
    rcases found : used.find? fun u => u.1 == path with - | ⟨p, names⟩
    · -- a file that is not listed is another one
      have other : path ≠ target := by
        rintro rfl
        obtain ⟨u, hu, eq⟩ := List.any_eq_true.1 listed
        exact List.find?_eq_none.1 found u hu eq
      simp [found, other]
    · obtain rfl : p = path := by simpa using List.find?_some found
      by_cases here : p = target
      · subst here
        simp [found, mem_foldl_insertNew]
      · simp [found, here]
  · next new =>
    rw [List.find?_append]
    by_cases here : path = target
    · subst here
      have none : (used.find? fun u => u.1 == path) = none :=
        List.find?_eq_none.2 fun u hu eq => new (List.any_eq_true.2 ⟨u, hu, eq⟩)
      simp [none, mem_foldl_insertNew]
    · simp [here, Ne.symm here]

theorem mem_namesOf_foldl_addNames {ts : Targets} :
    m ∈ namesOf (ts.foldl (fun used t => addNames g used t.1 t.2) used) path ↔
      m ∈ namesOf used path ∨ ∃ is, (path, is) ∈ ts ∧ ∃ i ∈ is, m ∈ namesTaken g path i := by
  induction ts generalizing used with
  | nil => simp
  | cons t ts ih =>
    obtain ⟨target, is⟩ := t
    rw [List.foldl_cons, ih, mem_namesOf_addNames, or_assoc]
    refine or_congr_right ?_
    constructor
    · rintro (⟨rfl, taken⟩ | ⟨is', mem, taken⟩)
      · exact ⟨is, List.mem_cons_self, taken⟩
      · exact ⟨is', List.mem_cons_of_mem _ mem, taken⟩
    · rintro ⟨is', mem, taken⟩
      rcases List.mem_cons.1 mem with eq | mem
      · obtain ⟨rfl, rfl⟩ := Prod.mk.inj eq
        exact .inl ⟨rfl, taken⟩
      · exact .inr ⟨is', mem, taken⟩

/-- **The names that are taken from a file** are those that the imports of it take. -/
theorem mem_namesOf_names :
    m ∈ namesOf (names g) path ↔
      ∃ n ∈ g.nodes, ∃ i, n.links.Imports path i ∧ m ∈ namesTaken g path i := by
  unfold names
  rw [mem_namesOf_foldl_addNames]
  constructor
  · rintro (none | ⟨is, mem, i, hi, taken⟩)
    · cases none
    · obtain ⟨n, hn, mem⟩ := List.mem_flatMap.1 mem
      exact ⟨n, hn, i, ⟨is, mem, hi⟩, taken⟩
  · rintro ⟨n, hn, i, ⟨is, mem, hi⟩, taken⟩
    exact .inr ⟨is, List.mem_flatMap.2 ⟨n, hn, mem⟩, i, hi, taken⟩

/-- An import takes a name that it has in its list. -/
theorem mem_namesTaken_of_mem (h : m ∈ i.names) (notWhole : m ≠ wholeModule) :
    m ∈ namesTaken g path i := by
  refine List.mem_flatMap.2 ⟨m, h, ?_⟩
  rw [if_neg (by simpa using notWhole)]
  exact List.mem_singleton.2 rfl

/-- An import of a whole module takes each name that the module exports. -/
theorem mem_namesTaken_of_whole {n : Node} {e : Export} (h : wholeModule ∈ i.names)
    (node : g.node? path = some n) (first : n.export? m = some e) :
    m ∈ namesTaken g path i := by
  obtain rfl : e.name = m := by simpa using List.find?_some first
  refine List.mem_flatMap.2 ⟨wholeModule, h, ?_⟩
  rw [if_pos (by simp), node]
  exact List.mem_map_of_mem (List.mem_of_find?_eq_some first)

/-! ### The report -/

/-- The export of a node is in the report: the node is no entry and no barrel, it defines the
export itself, and no import of its file takes the name. -/
structure Reports (g : Graph) (given : List String) (n : Node) (e : Export) : Prop where
  node : n ∈ g.nodes
  ordinary : n.path ∉ given ∧ n.role ≠ .entry ∧ n.role ≠ .barrel
  own : e ∈ n.exports ∧ e.isReexport = false
  unused : isTaken (namesOf (names g) n.path) e = false

theorem mem_unused_iff {given : List String} {u : UnusedExport} :
    u ∈ unused g given ↔ ∃ n e, Reports g given n e ∧ u = ⟨n.relative, e.name, e.kind⟩ := by
  unfold unused unusedOf
  simp only [List.mem_flatMap, List.mem_filter, List.mem_map]
  constructor
  · rintro ⟨n, ⟨hn, ordinary⟩, e, ⟨he, own⟩, rfl⟩
    simp only [Bool.not_eq_true', Bool.or_eq_false_iff, Bool.and_eq_true] at ordinary own
    obtain ⟨⟨given, entry⟩, barrel⟩ := ordinary
    refine ⟨n, e, ⟨hn, ⟨?_, ?_, ?_⟩, ⟨he, own.1⟩, own.2⟩, rfl⟩
    · simpa using given
    · simpa using entry
    · simpa using barrel
  · rintro ⟨n, e, ⟨hn, ⟨given, entry, barrel⟩, ⟨he, own⟩, free⟩, rfl⟩
    exact ⟨n, ⟨hn, by simp [given, entry, barrel]⟩, e, ⟨he, by simp [own, free]⟩, rfl⟩

end Usage

/-! ### Re-exports and their imports -/

namespace Builder.Built

variable {b : Builder} {t : FileTree} {n : Node} {r : Record} {e : Export} {path : String}

/-- Each re-export has an import of the module that it names, which takes the name that is
passed on, or all names. -/
theorem exists_import (built : Built b t n r) (he : e ∈ n.exports)
    (reexport : e.isReexport = true) :
    ∃ i ∈ r.imports, e.source = some i.specifier ∧
      (wholeModule ∈ i.names ∨ ∃ m ∈ i.names, e.remote = some m) := by
  have fits := Source.fits_record built.record
  rcases built.exports e he with own | ⟨s, hs, k, o, rfl⟩
  · obtain ⟨s, m, source, remote, i, hi, rfl, takes⟩ := fits.reexports e own reexport
    exact ⟨i, hi, source, .inr ⟨m, takes, remote⟩⟩
  · obtain ⟨i, hi, rfl, takes⟩ := fits.stars s hs
    exact ⟨i, hi, rfl, .inl takes⟩

/-- All imports with the specifier of an export lead to its supplier. -/
theorem imports_supplier (built : Built b t n r) {i : Import} (hi : i ∈ r.imports)
    (source : e.source = some i.specifier) (next : Flow.supplier? n e = some path) :
    n.links.Imports path { i with resolved := some path } := by
  have inside := (Source.fits_record built.record).inside
  unfold Flow.supplier? at next
  rw [source] at next
  obtain ⟨j, leads, same⟩ := Links.imports_of_supplier? next
  rw [built.links, Links.imports_ofImports] at leads ⊢
  obtain ⟨j, hj, bare, means, rfl⟩ := leads
  -- the supplier may be known by another import, but what both mean and whether they name a
  -- package depends on the specifier alone
  have same : j.specifier = i.specifier := by simpa using same
  refine ⟨i, hi, ?_, same ▸ means, rfl⟩
  rw [inside i hi, ← same, ← inside j hj]
  exact bare

/-- **A re-export of a definition takes it from its file.** -/
theorem taken {g : Graph} (built : Built b t n r) (hn : n ∈ g.nodes) (he : e ∈ n.exports)
    (reexport : e.isReexport = true) (named : e.remote ≠ some "")
    (next : Flow.supplier? n e = some path) (defined : Flow.Defines g e.lookupName path) :
    e.lookupName ∈ Usage.namesOf (Usage.names g) path := by
  obtain ⟨i, hi, source, takes⟩ := built.exists_import he reexport
  refine Usage.mem_namesOf_names.2 ⟨n, hn, _, built.imports_supplier hi source next, ?_⟩
  obtain ⟨k, d, node, first, -⟩ := defined
  -- a name that reads like a whole module is taken as one
  by_cases whole : wholeModule ∈ i.names
  · exact Usage.mem_namesTaken_of_whole whole node first
  · obtain ⟨m, hm, remote⟩ := takes.resolve_left whole
    have lookup : e.lookupName = m := by
      unfold Export.lookupName
      rw [remote]
      exact if_neg fun empty => named (remote.trans (congrArg some empty))
    rw [lookup]
    refine Usage.mem_namesTaken_of_mem hm ?_
    rintro rfl
    exact whole hm

end Builder.Built

/-! ### Public names -/

/-- A way stays where it is, or its last hop leads to its end. -/
theorem Flow.Way.eq_or_last {g : Graph} {a m q l : String} {hops : List Flow.Hop}
    (way : Flow.Way g a m hops q l) :
    (a = q ∧ m = l) ∨ ∃ h ∈ hops, ∃ p, g.node? p = some h.node ∧ h.via ∈ h.node.exports ∧
      h.via.isReexport = true ∧ Flow.supplier? h.node h.via = some q ∧ h.via.lookupName = l := by
  induction way with
  | here => exact .inl ⟨rfl, rfl⟩
  | @hop a m b q l n e hops node first reexport next rest ih =>
    right
    rcases ih with ⟨rfl, rfl⟩ | ⟨h, hh, last⟩
    · exact ⟨⟨n, e⟩, List.mem_cons_self, a, node, List.mem_of_find?_eq_some first, reexport, next,
        rfl⟩
    · exact ⟨h, List.mem_cons_of_mem _ hh, last⟩

namespace Builder

/-- **What is public is not reported as unused.**  If a way of re-exports, each with a name of
its own, leads from a name of an entry to a definition, then no export of that name is
reported for the file that defines it.  The report knows files by their paths as seen from
the root; where no other file has that path, nothing in it has the path and the name. -/
theorem public_not_unused (b : Builder) (t : FileTree) (entryPaths given : List String)
    {g : Graph} (built : (b.build t entryPaths).1 = g) {e n p m : String}
    {hops : List Flow.Hop} (entry : e ∈ given ∨ e ∈ g.entries) (way : Flow.Way g e n hops p m)
    (named : ∀ h ∈ hops, h.via.remote ≠ some "") (defined : Flow.Defines g m p) :
    (∀ k x, Usage.Reports g given k x → x.name = m → k.path ≠ p) ∧
      ((∀ k ∈ g.nodes, k.relative = g.relative p → k.path = p) →
        ∀ u ∈ Usage.unused g given, u.file = g.relative p → u.name ≠ m) := by
  subst built
  have unreported : ∀ k x, Usage.Reports (b.build t entryPaths).1 given k x → x.name = m →
      k.path ≠ p := by
    rintro k x reports rfl rfl
    rcases way.eq_or_last with ⟨rfl, -⟩ | ⟨h, hh, q, node, he, reexport, next, lookup⟩
    · -- the entry defines the name itself
      rcases entry with listed | role
      · exact reports.ordinary.1 listed
      · exact reports.ordinary.2.1 (role_eq_entry_of_mem_entries role reports.node rfl)
    · -- the last file on the way takes the name from the one that defines it
      obtain ⟨r, built⟩ := exists_built node
      have taken := built.taken (List.mem_of_find?_eq_some node) he reexport (named h hh) next
        (lookup ▸ defined)
      have free := reports.unused
      rw [lookup, ← List.contains_iff_mem] at taken
      rw [Usage.isTaken, taken] at free
      cases free
  refine ⟨unreported, fun distinct u hu file name => ?_⟩
  obtain ⟨k, x, reports, rfl⟩ := Usage.mem_unused_iff.1 hu
  exact unreported k x reports name (distinct k reports.node file)

/-- An entry with a star export of a file that passes a name of a third one on under another
name. -/
def passedOn : FileTree :=
  .folder
    [("index.ts", .file "export*from'./lib/x'".toUTF8.toList),
     ("lib", .folder
       [("deep", .folder [("y.ts", .file "export var n,k".toUTF8.toList)]),
        ("x.ts", .file "export{n as m}from'./deep/y'".toUTF8.toList)])]

/-- The graph of these files. -/
def passedOnGraph : Graph where
  root := "/"
  nodes :=
    [{ path := "/index.ts"
       relative := "index.ts"
       links :=
         { internal := [("/lib/x.ts",
             [{ specifier := "./lib/x", names := ["*"], resolved := some "/lib/x.ts" }])]
           distinct := by decide }
       exports :=
         [{ name := "m", isReexport := true, remote := some "m", source := some "./lib/x" }]
       role := .entry
       lineCount := 1 },
     { path := "/lib/x.ts"
       relative := "lib/x.ts"
       links :=
         { internal := [("/lib/deep/y.ts",
             [{ specifier := "./deep/y", names := ["n"], resolved := some "/lib/deep/y.ts" }])]
           distinct := by decide }
       exports :=
         [{ name := "m", isReexport := true, remote := some "n", source := some "./deep/y",
            pos := ⟨1, 8⟩ }]
       importedBy := ["/index.ts"]
       role := .util
       lineCount := 1 },
     { path := "/lib/deep/y.ts"
       relative := "lib/deep/y.ts"
       exports :=
         [{ name := "n", kind := .variable, pos := ⟨1, 12⟩ },
          { name := "k", kind := .variable, pos := ⟨1, 14⟩ }]
       importedBy := ["/lib/x.ts"]
       role := .util
       lineCount := 1 }]

/-- The name that is passed on is not reported, while its neighbour is. -/
theorem public_not_unused_passed_on :
    (Builder.build { root := "/" } passedOn ["index.ts"]).1 = passedOnGraph ∧
      "/index.ts" ∈ passedOnGraph.entries ∧ Flow.Defines passedOnGraph "n" "/lib/deep/y.ts" ∧
      (∀ u ∈ Usage.unused passedOnGraph [], u.file = "lib/deep/y.ts" → u.name ≠ "n") ∧
      Usage.unused passedOnGraph [] = [⟨"lib/deep/y.ts", "k", .variable⟩] := by
  have built : (Builder.build { root := "/" } passedOn ["index.ts"]).1 = passedOnGraph := by
    decide +kernel
  have entry : "/index.ts" ∈ passedOnGraph.entries := by decide
  have defined : Flow.Defines passedOnGraph "n" "/lib/deep/y.ts" := ⟨_, _, rfl, rfl, rfl⟩
  have way : Flow.Way passedOnGraph "/index.ts" "m" _ "/lib/deep/y.ts" "n" :=
    .hop rfl rfl rfl rfl (.hop rfl rfl rfl rfl (.here _ _))
  refine ⟨built, entry, defined, ?_, by decide⟩
  exact (public_not_unused _ _ _ [] built (.inr entry) way (by decide) defined).2 (by decide)

end Builder

end ModuleAtlas
