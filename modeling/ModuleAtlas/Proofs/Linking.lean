/-
ModuleAtlas/Proofs/Linking.lean

What a builder makes of one file.

A builder hands what it found about specifiers from import to import and from file to
file.  Nothing that is found is ever lost or changed, so what a specifier *means* to a
builder, that is what is known about it or else what the tree has, stays the same however
much is found on the way (`Cache.meaning_resolve`, `Agrees`).  By that meaning the node of
a file is a function of the file alone (`node_spec`), and the files of a project are each
done as if they were the first (`outcomes_spec`).

`imports_ofImports` then says where the imports of a file lead: each of those that name
no package to the one file that its specifier means in the folder.
-/
import ModuleAtlas.Graph.Build

namespace ModuleAtlas

/-! ### What specifiers mean -/

namespace Resolution

variable {t : FileTree} {extensions : List String} {c : Cache} {folder specifier : String}

/-- What a specifier means in a folder: what is known about it, or else what the tree
has. -/
def Cache.meaning (c : Cache) (t : FileTree) (extensions : List String)
    (folder specifier : String) : Option String :=
  (c.get? folder specifier).getD (Resolution.resolve t extensions folder specifier)

/-- What is known in a cache is what it means. -/
theorem Cache.meaning_of_get? {found : Option String} (h : c.get? folder specifier = some found) :
    c.meaning t extensions folder specifier = found := by
  rw [Cache.meaning, h, Option.getD_some]

theorem Cache.meaning_of_get?_eq_none (h : c.get? folder specifier = none) :
    c.meaning t extensions folder specifier =
      Resolution.resolve t extensions folder specifier := by
  rw [Cache.meaning, h, Option.getD_none]

/-- The cache with something found about a specifier in a folder. -/
def Cache.learn (c : Cache) (folder specifier : String) (found : Option String) : Cache :=
  ⟨((folder, specifier), found) :: c.known⟩

theorem Cache.get?_learn (found : Option String) (folder' specifier' : String) :
    (c.learn folder specifier found).get? folder' specifier' =
      if (folder, specifier) = (folder', specifier') then some found
      else c.get? folder' specifier' := by
  unfold Cache.get? Cache.learn
  rw [List.find?_cons]
  by_cases same : (folder, specifier) = (folder', specifier')
  · simp [same]
  · rw [if_neg same, beq_false_of_ne same]

/-- To learn what a specifier means anyway changes no meaning. -/
theorem Cache.meaning_learn :
    (c.learn folder specifier (c.meaning t extensions folder specifier)).meaning t extensions
      = c.meaning t extensions := by
  funext folder' specifier'
  rw [Cache.meaning, Cache.get?_learn]
  split
  · next same =>
    cases same
    rfl
  · rfl

theorem Cache.resolve_eq :
    c.resolve t extensions folder specifier =
      (c.meaning t extensions folder specifier,
        if (c.get? folder specifier).isSome then c
        else c.learn folder specifier (c.meaning t extensions folder specifier)) := by
  unfold Cache.resolve Cache.meaning
  split
  · next found known => simp [known]
  · next unknown => simp [unknown, Cache.learn]

/-- What is found about one specifier changes no meaning. -/
theorem Cache.meaning_resolve :
    (c.resolve t extensions folder specifier).2.meaning t extensions = c.meaning t extensions := by
  rw [Cache.resolve_eq]
  show (if (c.get? folder specifier).isSome then c else c.learn _ _ _).meaning _ _ = _
  split
  · rfl
  · exact Cache.meaning_learn

end Resolution

/-! ### Links -/

namespace Links

/-- One more import, put where it leads by what the specifiers mean. -/
def put (means : String → Option String) (l : Links) (i : Import) : Links :=
  match i.package with
  | some package => l.addExternal package i
  | none =>
    match means i.specifier with
    | some path => l.addInternal path { i with resolved := some path }
    | none => l.addUnresolved i.specifier

/-- An import goes where its own specifier leads, whatever others mean. -/
theorem put_congr {means means' : String → Option String} {i : Import} (l : Links)
    (same : means i.specifier = means' i.specifier) : l.put means i = l.put means' i := by
  unfold put
  rw [same]

/-- The links of imports. -/
def ofImports (means : String → Option String) (is : List Import) : Links :=
  is.foldl (put means) {}

/-- An import of the links leads to the file. -/
def Imports (l : Links) (path : String) (i : Import) : Prop :=
  ∃ is, (path, is) ∈ l.internal ∧ i ∈ is

variable {l : Links} {means : String → Option String} {path target : String} {i j : Import}

theorem imports_addInternal :
    (l.addInternal target i).Imports path j ↔ l.Imports path j ∨ path = target ∧ j = i := by
  unfold Imports
  show (∃ is, (path, is) ∈ l.internal.add target i ∧ j ∈ is) ↔ _
  unfold Targets.add
  split
  · next listed =>
    constructor
    · rintro ⟨is, mem, hj⟩
      obtain ⟨⟨path', is'⟩, mem', eq⟩ := List.mem_map.1 mem
      by_cases here : path' = target
      · simp only [here, beq_self_eq_true, if_true, Prod.mk.injEq] at eq
        obtain ⟨rfl, rfl⟩ := eq
        rcases List.mem_append.1 hj with hj | hj
        · exact .inl ⟨is', here ▸ mem', hj⟩
        · exact .inr ⟨rfl, List.mem_singleton.1 hj⟩
      · simp only [beq_false_of_ne here, Bool.false_eq_true, if_false, Prod.mk.injEq] at eq
        obtain ⟨rfl, rfl⟩ := eq
        exact .inl ⟨is', mem', hj⟩
    · rintro (⟨is, mem, hj⟩ | ⟨rfl, rfl⟩)
      · by_cases here : path = target
        · exact ⟨is ++ [i], List.mem_map.2 ⟨(path, is), mem, by simp [here]⟩,
            List.mem_append_left _ hj⟩
        · exact ⟨is, List.mem_map.2 ⟨(path, is), mem, by simp [here]⟩, hj⟩
      · obtain ⟨⟨path', is⟩, mem, eq⟩ := List.any_eq_true.1 listed
        obtain rfl : path' = path := by simpa using eq
        exact ⟨is ++ [j], List.mem_map.2 ⟨(path', is), mem, by simp⟩, by simp⟩
  · constructor
    · rintro ⟨is, mem, hj⟩
      rcases List.mem_append.1 mem with mem | mem
      · exact .inl ⟨is, mem, hj⟩
      · obtain ⟨rfl, rfl⟩ := Prod.mk.inj (List.mem_singleton.1 mem)
        exact .inr ⟨rfl, List.mem_singleton.1 hj⟩
    · rintro (⟨is, mem, hj⟩ | ⟨rfl, rfl⟩)
      · exact ⟨is, List.mem_append_left _ mem, hj⟩
      · exact ⟨[j], List.mem_append_right _ (List.mem_singleton.2 rfl), List.mem_singleton.2 rfl⟩

theorem imports_put :
    (l.put means i).Imports path j ↔
      l.Imports path j ∨
        i.package = none ∧ means i.specifier = some path ∧ j = { i with resolved := some path } := by
  unfold put
  split
  · next package some =>
    simp only [some]
    exact ⟨.inl, fun h => h.elim id nofun⟩
  · next none =>
    split
    · next target some =>
      rw [imports_addInternal]
      simp only [none, some]
      grind
    · next unresolved =>
      simp only [unresolved]
      exact ⟨.inl, fun h => h.elim id fun h => by cases h.2.1⟩

theorem imports_foldl_put (is : List Import) :
    (is.foldl (put means) l).Imports path j ↔
      l.Imports path j ∨ ∃ i ∈ is, i.package = none ∧ means i.specifier = some path ∧
        j = { i with resolved := some path } := by
  induction is generalizing l with
  | nil => simp
  | cons i is ih =>
    rw [List.foldl_cons, ih, imports_put]
    simp only [List.mem_cons, exists_eq_or_imp, or_assoc]

/-- **Where imports lead**: those that name no package, to what their specifiers mean. -/
theorem imports_ofImports (is : List Import) :
    (ofImports means is).Imports path j ↔
      ∃ i ∈ is, i.package = none ∧ means i.specifier = some path ∧
        j = { i with resolved := some path } := by
  unfold ofImports
  rw [imports_foldl_put]
  simp [Imports]

/-- The supplier has an import of the given property. -/
theorem imports_of_supplier? {p : Import → Bool} (h : l.supplier? p = some path) :
    ∃ i, l.Imports path i ∧ p i = true := by
  unfold supplier? at h
  obtain ⟨⟨path', is⟩, found, rfl⟩ := Option.map_eq_some_iff.1 h
  have any : is.any p = true := by simpa using List.find?_some found
  obtain ⟨i, hi, hp⟩ := List.any_eq_true.1 any
  exact ⟨i, ⟨is, List.mem_of_find?_eq_some found, hi⟩, hp⟩

end Links

/-! ### Nodes -/

namespace Builder

variable {t : FileTree} {b b' : Builder} {path : String}

/-- What a specifier means to a builder in a folder. -/
def meaning (b : Builder) (t : FileTree) (folder specifier : String) : Option String :=
  b.cache.meaning t b.options.extensions folder specifier

/-- A builder that went on from another one: it may know more, but it means the same. -/
structure Agrees (t : FileTree) (b b' : Builder) : Prop where
  root : b'.root = b.root
  options : b'.options = b.options
  meaning : b'.meaning t = b.meaning t

theorem Agrees.refl (b : Builder) : Agrees t b b := ⟨rfl, rfl, rfl⟩

theorem Agrees.trans {b'' : Builder} (h : Agrees t b b') (h' : Agrees t b' b'') :
    Agrees t b b'' :=
  ⟨h'.root.trans h.root, h'.options.trans h.options, h'.meaning.trans h.meaning⟩

theorem resolve_spec (b : Builder) (t : FileTree) (folder specifier : String) :
    (b.resolve t folder specifier).1 = b.meaning t folder specifier ∧
      Agrees t b (b.resolve t folder specifier).2 := by
  refine ⟨?_, rfl, rfl, ?_⟩
  · show (b.cache.resolve t b.options.extensions folder specifier).1 = _
    rw [Resolution.Cache.resolve_eq]
    rfl
  · exact Resolution.Cache.meaning_resolve

theorem link_spec (b : Builder) (t : FileTree) (folder : String) (links : Links) (i : Import) :
    (link t folder (links, b) i).1 = links.put (b.meaning t folder) i ∧
      Agrees t b (link t folder (links, b) i).2 := by
  obtain ⟨means, agrees⟩ := resolve_spec b t folder i.specifier
  rcases e : b.resolve t folder i.specifier with ⟨found, b'⟩
  rw [e] at means agrees
  rcases kind : i.package with - | package
  · unfold Links.put
    rw [← means]
    cases found <;> exact ⟨by simp only [link, kind, e], by simpa only [link, kind, e] using agrees⟩
  · exact ⟨by simp only [link, Links.put, kind], by simpa only [link, kind] using .refl b⟩

theorem foldl_link_spec (b : Builder) (t : FileTree) (folder : String) (is : List Import)
    (links : Links) :
    (is.foldl (link t folder) (links, b)).1 = is.foldl (Links.put (b.meaning t folder)) links ∧
      Agrees t b (is.foldl (link t folder) (links, b)).2 := by
  induction is generalizing links b with
  | nil => exact ⟨rfl, .refl b⟩
  | cons i is ih =>
    obtain ⟨here, agrees⟩ := link_spec b t folder links i
    obtain ⟨rest, agrees'⟩ := ih (link t folder (links, b) i).2 (link t folder (links, b) i).1
    rw [List.foldl_cons, List.foldl_cons]
    refine ⟨?_, agrees.trans agrees'⟩
    rw [rest, here, agrees.meaning]

/-- The node of a file with a record, where nothing is found on the way. -/
def nodeOf (b : Builder) (t : FileTree) (path : String) (r : Record) : Node :=
  { path
    relative := Path.relative path b.root
    links := Links.ofImports (b.meaning t (Path.folder path)) r.imports
    exports := r.exports
    lineCount := r.lineCount }

/-- What comes of a file, where nothing is found on the way. -/
def outcomeOf (b : Builder) (t : FileTree) (path : String) : Outcome :=
  ⟨path, (Source.record t path).map fun r => (b.nodeOf t path r, r.stars)⟩

@[simp] theorem path_outcomeOf (b : Builder) (t : FileTree) (path : String) :
    (b.outcomeOf t path).path = path := rfl

theorem Agrees.outcomeOf (h : Agrees t b b') : b'.outcomeOf t = b.outcomeOf t := by
  funext path
  unfold Builder.outcomeOf nodeOf
  rw [h.root, h.meaning]

theorem node_spec (b : Builder) (t : FileTree) (path : String) (r : Record) :
    (b.node t path r).1 = b.nodeOf t path r ∧ Agrees t b (b.node t path r).2 := by
  obtain ⟨links, agrees⟩ := foldl_link_spec b t (Path.folder path) r.imports {}
  unfold node nodeOf Links.ofImports
  refine ⟨?_, agrees⟩
  rw [← links, ← agrees.root]

theorem outcome_spec (b : Builder) (t : FileTree) (path : String) :
    (b.outcome t path).1 = b.outcomeOf t path ∧ Agrees t b (b.outcome t path).2 := by
  unfold outcome Builder.outcomeOf
  cases Source.record t path with
  | error e => exact ⟨rfl, .refl b⟩
  | ok r =>
    obtain ⟨node, agrees⟩ := node_spec b t path r
    rcases e : b.node t path r with ⟨n, b'⟩
    rw [e] at node agrees
    simp only [e]
    refine ⟨?_, agrees⟩
    rw [Except.map, ← node]

/-- **Files one after the other** are each done as if it were the first. -/
theorem outcomes_spec (b : Builder) (t : FileTree) (files : List String) :
    (outcomes t b files).1 = files.map (b.outcomeOf t) ∧ Agrees t b (outcomes t b files).2 := by
  induction files generalizing b with
  | nil => exact ⟨rfl, .refl b⟩
  | cons path files ih =>
    obtain ⟨here, agrees⟩ := outcome_spec b t path
    rcases e : b.outcome t path with ⟨o, b'⟩
    rw [e] at here agrees
    obtain ⟨rest, agrees'⟩ := ih b'
    rcases e' : outcomes t b' files with ⟨os, b''⟩
    rw [e'] at rest agrees'
    simp only [outcomes, e, e']
    refine ⟨?_, agrees.trans agrees'⟩
    rw [List.map_cons, ← here, ← agrees.outcomeOf, ← rest]

end Builder

end ModuleAtlas
