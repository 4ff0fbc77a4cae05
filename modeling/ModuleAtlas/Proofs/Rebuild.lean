/-
ModuleAtlas/Proofs/Rebuild.lean

Graphs that one builder builds while the files change.

A builder keeps what it found about specifiers from build to build, and it never looks again.
`Learns` says what a builder knows afterwards: all that it knew, and what the tree at hand says
about whatever its files ask for and was not known.  Along a session of writes, deletions and
builds this gives `Remembers`: of each specifier that was ever asked for, the builder knows what
the tree said at the first build that asked for it, and nothing of any other.

Main result: `build_fresh_iff`.  A build gives the graph that a new builder would give exactly if
all that its files ask for means on the tree at hand what it meant at the first build that asked
for it.  `build_stale_after_write` is a session where it does not: a file that was missing at one
build is still missing for the next one, after it was written.
-/
import ModuleAtlas.Proofs.BuiltGraph

namespace ModuleAtlas

/-! ### Links that tell what specifiers mean -/

namespace Links

variable {means means' : String → Option String} {is : List Import}

theorem foldl_put_congr (l : Links)
    (same : ∀ i ∈ is, i.package = none → means i.specifier = means' i.specifier) :
    is.foldl (put means) l = is.foldl (put means') l := by
  induction is generalizing l with
  | nil => rfl
  | cons i is ih =>
    have here : l.put means i = l.put means' i := by
      rcases kind : i.package with - | package
      · exact put_congr l (same i List.mem_cons_self kind)
      · simp only [put, kind]
    rw [List.foldl_cons, List.foldl_cons, here]
    exact ih _ fun j hj => same j (List.mem_cons_of_mem i hj)

/-- A specifier that leads somewhere leads there in all equal links. -/
theorem means_of_ofImports_eq (eq : ofImports means is = ofImports means' is) {i : Import}
    {path : String} (hi : i ∈ is) (inside : i.package = none)
    (leads : means i.specifier = some path) : means' i.specifier = some path := by
  have here : (ofImports means is).Imports path { i with resolved := some path } :=
    (imports_ofImports is).2 ⟨i, hi, inside, leads, rfl⟩
  rw [eq] at here
  obtain ⟨j, -, -, leads', same⟩ := (imports_ofImports is).1 here
  have spelled : i.specifier = j.specifier := (Import.mk.inj same).1
  rw [spelled]
  exact leads'

/-- **Links tell what specifiers mean**, as far as the imports ask for it. -/
theorem ofImports_eq_iff :
    ofImports means is = ofImports means' is ↔
      ∀ i ∈ is, i.package = none → means i.specifier = means' i.specifier := by
  constructor
  · intro eq i hi inside
    rcases leads : means i.specifier with - | path
    · rcases leads' : means' i.specifier with - | path
      · rfl
      · rw [means_of_ofImports_eq eq.symm hi inside leads'] at leads
        cases leads
    · exact (means_of_ofImports_eq eq hi inside leads).symm
  · exact foldl_put_congr {}

end Links

namespace Builder

open Resolution (Cache)

variable {t : FileTree} {b b' b'' : Builder} {folder specifier path : String}

/-! ### What is asked for -/

/-- A file of the tree that is looked for has a record with an import of the specifier from the
folder, and the import names no package. -/
def Asks (s : Discovery.Search) (t : FileTree) (folder specifier : String) : Prop :=
  ∃ path ∈ Discovery.files t s, ∃ r, Source.record t path = .ok r ∧ Path.folder path = folder ∧
    ∃ i ∈ r.imports, i.package = none ∧ i.specifier = specifier

/-- What a builder makes of a file depends on what the file asks for. -/
theorem outcomeOf_eq_iff (root : b'.root = b.root) :
    b'.outcomeOf t path = b.outcomeOf t path ↔
      ∀ r, Source.record t path = .ok r → ∀ i ∈ r.imports, i.package = none →
        b'.meaning t (Path.folder path) i.specifier = b.meaning t (Path.folder path) i.specifier := by
  unfold outcomeOf nodeOf
  rcases Source.record t path with e | r
  · simp only [Except.map, reduceCtorEq, false_implies, implies_true]
  · simp only [Except.map, Outcome.mk.injEq, Except.ok.injEq, Prod.mk.injEq, Node.mk.injEq,
      true_and, and_true, root, forall_eq']
    exact Links.ofImports_eq_iff

/-! ### What a builder learns -/

/-- A builder went on from another one by asking the tree for some specifiers: it knows all that
the other one knew, and what the tree says about those that it asked for and did not know. -/
structure Learns (t : FileTree) (asked : String → String → Prop) (b b' : Builder) : Prop where
  rest : b' = { b with cache := b'.cache }
  known : ∀ {folder specifier found}, b.cache.get? folder specifier = some found →
    b'.cache.get? folder specifier = some found
  found : ∀ {folder specifier}, b.cache.get? folder specifier = none → asked folder specifier →
    b'.cache.get? folder specifier =
      some (Resolution.resolve t b.options.extensions folder specifier)
  other : ∀ {folder specifier}, b.cache.get? folder specifier = none → ¬ asked folder specifier →
    b'.cache.get? folder specifier = none

variable {asked asked' : String → String → Prop}

theorem Learns.none (none : ∀ folder specifier, ¬ asked folder specifier) (b : Builder) :
    Learns t asked b b where
  rest := rfl
  known h := h
  found _ ask := absurd ask (none _ _)
  other h _ := h

theorem Learns.congr (h : Learns t asked b b')
    (iff : ∀ folder specifier, asked' folder specifier ↔ asked folder specifier) :
    Learns t asked' b b' where
  rest := h.rest
  known := h.known
  found unknown ask := h.found unknown ((iff _ _).1 ask)
  other unknown ask := h.other unknown fun ask' => ask ((iff _ _).2 ask')

theorem Learns.options (h : Learns t asked b b') : b'.options = b.options := by
  rw [h.rest]

theorem Learns.search (h : Learns t asked b b') : b'.search = b.search := by
  rw [h.rest]
  rfl

theorem Learns.trans {both : String → String → Prop} (h : Learns t asked b b')
    (h' : Learns t asked' b' b'')
    (iff : ∀ folder specifier, both folder specifier ↔
      asked folder specifier ∨ asked' folder specifier) : Learns t both b b'' where
  rest := by
    rw [h'.rest, h.rest]
  known hk := h'.known (h.known hk)
  found {folder specifier} unknown ask := by
    by_cases first : asked folder specifier
    · exact h'.known (h.found unknown first)
    · have second : asked' folder specifier := ((iff _ _).1 ask).resolve_left first
      rw [h'.found (h.other unknown first) second, h.options]
  other {folder specifier} unknown ask := by
    rw [iff, not_or] at ask
    exact h'.other (h.other unknown ask.1) ask.2

theorem learns_resolve (b : Builder) (t : FileTree) (folder specifier : String) :
    Learns t (fun f s => (f, s) = (folder, specifier)) b (b.resolve t folder specifier).2 := by
  rcases known : b.cache.get? folder specifier with - | found
  · have cache : (b.resolve t folder specifier).2.cache = b.cache.learn folder specifier
        (Resolution.resolve t b.options.extensions folder specifier) := by
      simp only [resolve, Cache.resolve, known, Cache.learn]
    refine ⟨rfl, ?_, ?_, ?_⟩
    · intro folder' specifier' found h
      rw [cache, Cache.get?_learn, if_neg]
      · exact h
      · rintro ⟨⟩
        rw [known] at h
        cases h
    · rintro folder' specifier' - ⟨⟩
      rw [cache, Cache.get?_learn, if_pos rfl]
    · intro folder' specifier' unknown other
      rw [cache, Cache.get?_learn, if_neg (Ne.symm other)]
      exact unknown
  · have same : (b.resolve t folder specifier).2 = b := by
      simp only [resolve, Cache.resolve, known]
    rw [same]
    refine ⟨rfl, id, ?_, fun h _ => h⟩
    rintro folder' specifier' unknown ⟨⟩
    rw [known] at unknown
    cases unknown

theorem learns_link (b : Builder) (t : FileTree) (folder : String) (links : Links) (i : Import) :
    Learns t (fun f s => f = folder ∧ i.package = none ∧ i.specifier = s) b
      (link t folder (links, b) i).2 := by
  rcases kind : i.package with - | package
  · have step : (link t folder (links, b) i).2 = (b.resolve t folder i.specifier).2 := by
      rcases e : b.resolve t folder i.specifier with ⟨- | found, b'⟩ <;> simp only [link, kind, e]
    rw [step]
    apply (learns_resolve b t folder i.specifier).congr
    intro f s
    rw [Prod.mk.injEq, eq_comm (a := s)]
    simp only [true_and]
  · have step : (link t folder (links, b) i).2 = b := by simp only [link, kind]
    rw [step]
    apply Learns.none
    rintro f s ⟨-, named, -⟩
    cases named

theorem learns_foldl_link (b : Builder) (t : FileTree) (folder : String) (is : List Import)
    (links : Links) :
    Learns t (fun f s => f = folder ∧ ∃ i ∈ is, i.package = none ∧ i.specifier = s) b
      (is.foldl (link t folder) (links, b)).2 := by
  induction is generalizing links b with
  | nil =>
    apply Learns.none
    rintro f s ⟨-, i, listed, -⟩
    cases listed
  | cons i is ih =>
    have step : ((i :: is).foldl (link t folder) (links, b)).2 =
        (is.foldl (link t folder)
          ((link t folder (links, b) i).1, (link t folder (links, b) i).2)).2 := by
      rw [List.foldl_cons]
    rw [step]
    apply (learns_link b t folder links i).trans (ih _ _)
    intro f s
    simp only [List.mem_cons, exists_eq_or_imp, and_or_left]

theorem learns_outcome (b : Builder) (t : FileTree) (path : String) :
    Learns t (fun f s => ∃ r, Source.record t path = .ok r ∧ Path.folder path = f ∧
      ∃ i ∈ r.imports, i.package = none ∧ i.specifier = s) b (b.outcome t path).2 := by
  rcases read : Source.record t path with e | r
  · have step : (b.outcome t path).2 = b := by
      unfold outcome
      rw [read]
    rw [step]
    apply Learns.none
    rintro f s ⟨r, read', -⟩
    cases read'
  · have step : (b.outcome t path).2 =
        (r.imports.foldl (link t (Path.folder path)) ({}, b)).2 := by
      unfold outcome
      rw [read]
      rfl
    rw [step]
    apply (learns_foldl_link b t (Path.folder path) r.imports {}).congr
    intro f s
    rw [eq_comm (a := f)]
    simp only [Except.ok.injEq, exists_eq_left']

theorem learns_outcomes (b : Builder) (t : FileTree) (files : List String) :
    Learns t (fun f s => ∃ path ∈ files, ∃ r, Source.record t path = .ok r ∧
      Path.folder path = f ∧ ∃ i ∈ r.imports, i.package = none ∧ i.specifier = s) b
      (outcomes t b files).2 := by
  induction files generalizing b with
  | nil =>
    apply Learns.none
    rintro f s ⟨path, listed, -⟩
    cases listed
  | cons path files ih =>
    have step : (outcomes t b (path :: files)).2 = (outcomes t (b.outcome t path).2 files).2 := by
      rw [outcomes]
    rw [step]
    apply (learns_outcome b t path).trans (ih _)
    intro f s
    simp only [List.mem_cons, exists_eq_or_imp]

/-- **What a build teaches a builder**: what the tree says about all that its files ask for. -/
theorem learns_build (b : Builder) (t : FileTree) (entries : List String) :
    Learns t (Asks b.search t) b (b.build t entries).2.2 :=
  learns_outcomes b t (Discovery.files t b.search)

/-! ### Builds that can be told apart -/

/-- The builder as it was before it found anything. -/
def fresh (b : Builder) : Builder := { b with cache := {} }

theorem root_fresh : b.fresh.root = b.root := rfl

theorem search_fresh (b : Builder) : b.fresh.search = b.search := by
  unfold fresh search
  rfl

theorem meaning_fresh (b : Builder) (t : FileTree) :
    b.fresh.meaning t = Resolution.resolve t b.options.extensions := by
  funext folder specifier
  exact Cache.meaning_of_get?_eq_none rfl

theorem warning?_outcomeOf (b : Builder) (t : FileTree) (path root : String) :
    (b.outcomeOf t path).warning? root =
      match Source.record t path with
      | .error e => some (.skipped (Path.relative path root) e)
      | .ok _ => none := by
  unfold Outcome.warning? outcomeOf
  cases Source.record t path <;> rfl

/-- What a graph goes on without is a matter of the tree. -/
theorem warnings_fresh (b : Builder) (t : FileTree) (entries : List String) :
    (b.build t entries).2.1 = (b.fresh.build t entries).2.1 := by
  have same : Outcome.warning? b.root ∘ b.outcomeOf t
      = Outcome.warning? b.root ∘ b.fresh.outcomeOf t := by
    funext path
    rw [Function.comp_apply, Function.comp_apply, warning?_outcomeOf, warning?_outcomeOf]
  rw [(build_eq b t entries).2, (build_eq b.fresh t entries).2, search_fresh, root_fresh]
  unfold warningsOf
  rw [List.filterMap_map, List.filterMap_map, same]

/-- **A graph tells what a builder remembers**, as far as the files of the tree ask for it. -/
theorem graph_eq_fresh_iff (b : Builder) (t : FileTree) (entries : List String) :
    (b.build t entries).1 = (b.fresh.build t entries).1 ↔
      ∀ folder specifier, Asks b.search t folder specifier →
        b.meaning t folder specifier =
          Resolution.resolve t b.options.extensions folder specifier := by
  constructor
  · -- the links of the file that asks are those of both nodes
    rintro same - - ⟨path, found, r, record, rfl, i, hi, inside, rfl⟩
    obtain ⟨importedBy, exports, role, node⟩ := exists_node?_build found record entries
    obtain ⟨importedBy', exports', role', node'⟩ :=
      exists_node?_build (b := b.fresh) found record entries
    rw [same, node'] at node
    have links : Links.ofImports (b.fresh.meaning t (Path.folder path)) r.imports
        = Links.ofImports (b.meaning t (Path.folder path)) r.imports :=
      congrArg Node.links (Option.some.inj node)
    rw [meaning_fresh] at links
    exact (Links.ofImports_eq_iff.1 links i hi inside).symm
  · intro means
    have outcomes : (Discovery.files t b.search).map (b.outcomeOf t)
        = (Discovery.files t b.search).map (b.fresh.outcomeOf t) := by
      refine List.map_congr_left fun path found => ?_
      rw [outcomeOf_eq_iff root_fresh.symm]
      intro r record i hi inside
      rw [meaning_fresh]
      exact means _ _ ⟨path, found, r, record, rfl, i, hi, inside, rfl⟩
    rw [(build_eq b t entries).1, (build_eq b.fresh t entries).1, search_fresh, outcomes]
    unfold assemble
    rfl

/-! ### Sessions -/

/-- What is done to the files, or with the builder. -/
inductive Act where
  | write (path : String) (bytes : List UInt8)
  | delete (path : String)
  | build (entries : List String)

/-- The files, the builder, and what the files were at each build so far, the first one first. -/
structure Session where
  tree : FileTree
  builder : Builder
  built : List FileTree := []

/-- A session with a new builder. -/
def Session.begin (t : FileTree) (root : String) (options : Options) : Session :=
  { tree := t, builder := (make t root options).1 }

/-- The session after an act. -/
def Session.act (s : Session) : Act → Session
  | .write path bytes => { s with tree := s.tree.write path bytes }
  | .delete path => { s with tree := s.tree.delete path }
  | .build entries =>
    { s with
      builder := (s.builder.build s.tree entries).2.2
      built := s.built ++ [s.tree] }

/-- The session after some acts. -/
def Session.run (s : Session) (acts : List Act) : Session := acts.foldl act s

/-- The tree is the first one of those that were built which asks for the specifier. -/
def FirstAsked (search : Discovery.Search) (built : List FileTree) (folder specifier : String)
    (t : FileTree) : Prop :=
  ∃ before after, built = before ++ t :: after ∧ Asks search t folder specifier ∧
    ∀ t' ∈ before, ¬ Asks search t' folder specifier

variable {search : Discovery.Search} {built : List FileTree}

theorem exists_firstAsked (asked : ∃ t ∈ built, Asks search t folder specifier) :
    ∃ t, FirstAsked search built folder specifier t := by
  induction built with
  | nil =>
    obtain ⟨t, listed, -⟩ := asked
    cases listed
  | cons t built ih =>
    by_cases here : Asks search t folder specifier
    · exact ⟨t, [], built, rfl, here, nofun⟩
    · obtain ⟨t', listed, asks⟩ := asked
      have later : t' ∈ built := by
        rcases List.mem_cons.1 listed with rfl | later
        · exact absurd asks here
        · exact later
      obtain ⟨first, before, after, rfl, asks', none⟩ := ih ⟨t', later, asks⟩
      exact ⟨first, t :: before, after, rfl, asks', List.forall_mem_cons.2 ⟨here, none⟩⟩

/-- One more build is the first that asks for something only if none before it asked. -/
theorem FirstAsked.of_append {t' : FileTree}
    (h : FirstAsked search (built ++ [t]) folder specifier t') :
    FirstAsked search built folder specifier t' ∨
      t' = t ∧ Asks search t folder specifier ∧
        ∀ t' ∈ built, ¬ Asks search t' folder specifier := by
  obtain ⟨before, after, eq, asks, none⟩ := h
  rcases List.eq_nil_or_concat after with rfl | ⟨after, last, rfl⟩
  · obtain ⟨rfl, rfl⟩ : built = before ∧ t = t' := by
      simpa using List.append_inj' eq rfl
    exact .inr ⟨rfl, asks, none⟩
  · have split : built ++ [t] = (before ++ t' :: after) ++ [last] := by simpa using eq
    exact .inl ⟨before, after, (List.append_inj' split rfl).1, asks, none⟩

/-- What a builder knows after builds: of all that was asked for, what the tree said at the first
build that asked for it, and nothing of any other specifier. -/
structure Remembers (b : Builder) (built : List FileTree) : Prop where
  first : ∀ {folder specifier t}, FirstAsked b.search built folder specifier t →
    b.cache.get? folder specifier =
      some (Resolution.resolve t b.options.extensions folder specifier)
  never : ∀ {folder specifier}, (∀ t ∈ built, ¬ Asks b.search t folder specifier) →
    b.cache.get? folder specifier = none

theorem remembers_make (t : FileTree) (root : String) (options : Options) :
    Remembers (make t root options).1 [] where
  first := by
    rintro folder specifier t' ⟨before, after, eq, -⟩
    simp at eq
  never _ := rfl

theorem Remembers.learn (h : Remembers b built) (learns : Learns t (Asks b.search t) b b') :
    Remembers b' (built ++ [t]) where
  first {folder specifier t'} first := by
    rw [learns.search] at first
    rw [learns.options]
    rcases first.of_append with earlier | ⟨rfl, asks, none⟩
    · exact learns.known (h.first earlier)
    · exact learns.found (h.never none) asks
  never {folder specifier} none := by
    rw [learns.search] at none
    have unknown := h.never fun t ht => none t (List.mem_append_left _ ht)
    exact learns.other unknown (none t (List.mem_append_right _ (List.mem_singleton.2 rfl)))

theorem Remembers.act {s : Session} (h : Remembers s.builder s.built) (a : Act) :
    Remembers (s.act a).builder (s.act a).built := by
  cases a with
  | write path bytes => simpa only [Session.act] using h
  | delete path => simpa only [Session.act] using h
  | build entries => exact h.learn (learns_build s.builder s.tree entries)

theorem remembers_run (t : FileTree) (root : String) (options : Options) (acts : List Act) :
    Remembers ((Session.begin t root options).run acts).builder
      ((Session.begin t root options).run acts).built := by
  unfold Session.run
  refine List.foldlRecOn (motive := fun s => Remembers s.builder s.built) acts Session.act ?_ ?_
  · exact remembers_make t root options
  · intro s h a _
    exact h.act a

theorem Remembers.meaning_of_first {t₁ : FileTree} (h : Remembers b built)
    (first : FirstAsked b.search built folder specifier t₁) :
    b.meaning t folder specifier =
      Resolution.resolve t₁ b.options.extensions folder specifier :=
  Cache.meaning_of_get? (h.first first)

theorem Remembers.meaning_of_never (h : Remembers b built)
    (never : ∀ t ∈ built, ¬ Asks b.search t folder specifier) :
    b.meaning t folder specifier =
      Resolution.resolve t b.options.extensions folder specifier :=
  Cache.meaning_of_get?_eq_none (h.never never)

/-- **When a rebuild is fresh.**  After any writes, deletions and builds a builder resolves a
specifier as the tree did at the first build that asked for it, and as the tree at hand does if
no build asked for it.  So its graph is the one that a new builder with the same patterns would
give exactly if whatever the files at hand ask for means to them what it meant at the first build
that asked for it.  The warnings are always the same. -/
theorem build_fresh_iff (t : FileTree) (root : String) (options : Options) (acts : List Act)
    (s : Session) (run : s = (Session.begin t root options).run acts) :
    (∀ folder specifier,
      (∀ t₁, FirstAsked s.builder.search s.built folder specifier t₁ →
        (s.builder.resolve s.tree folder specifier).1 =
          Resolution.resolve t₁ s.builder.options.extensions folder specifier) ∧
      ((∀ t₁ ∈ s.built, ¬ Asks s.builder.search t₁ folder specifier) →
        (s.builder.resolve s.tree folder specifier).1 =
          Resolution.resolve s.tree s.builder.options.extensions folder specifier)) ∧
    ∀ entries,
      ((s.builder.build s.tree entries).1 = (s.builder.fresh.build s.tree entries).1 ↔
        ∀ folder specifier t₁, Asks s.builder.search s.tree folder specifier →
          FirstAsked s.builder.search s.built folder specifier t₁ →
          Resolution.resolve t₁ s.builder.options.extensions folder specifier =
            Resolution.resolve s.tree s.builder.options.extensions folder specifier) ∧
      (s.builder.build s.tree entries).2.1 = (s.builder.fresh.build s.tree entries).2.1 := by
  have remembers : Remembers s.builder s.built := run ▸ remembers_run t root options acts
  refine ⟨fun folder specifier => ⟨fun t₁ first => ?_, fun never => ?_⟩, fun entries => ⟨?_, ?_⟩⟩
  · rw [(resolve_spec _ _ _ _).1, remembers.meaning_of_first first]
  · rw [(resolve_spec _ _ _ _).1, remembers.meaning_of_never never]
  · rw [graph_eq_fresh_iff]
    constructor
    · intro means folder specifier t₁ asks first
      rw [← remembers.meaning_of_first first]
      exact means folder specifier asks
    · intro stays folder specifier asks
      by_cases asked : ∃ t₁ ∈ s.built, Asks s.builder.search t₁ folder specifier
      · obtain ⟨t₁, first⟩ := exists_firstAsked asked
        rw [remembers.meaning_of_first first]
        exact stays folder specifier t₁ asks first
      · exact remembers.meaning_of_never fun t₁ ht asks => asked ⟨t₁, ht, asks⟩
  · exact warnings_fresh s.builder s.tree entries

/-- A file that imports another one, which is not there. -/
def lone : FileTree := .folder [("a.ts", .file "import'./lib/b'".toUTF8.toList)]

/-- The missing file is written after a first build. -/
def afterWrite : Session := (Session.begin lone "/" {}).run [.build [], .write "/lib/b.ts" []]

/-- The next build still misses the file: the import leads nowhere, and the graph is not the one
that a new builder gives. -/
theorem build_stale_after_write :
    (afterWrite.builder.resolve afterWrite.tree "/" "./lib/b").1 = none ∧
      Resolution.resolve afterWrite.tree afterWrite.builder.options.extensions "/" "./lib/b"
        = some "/lib/b.ts" ∧
      (afterWrite.builder.build afterWrite.tree []).1
        ≠ (afterWrite.builder.fresh.build afterWrite.tree []).1 := by
  obtain ⟨resolves, builds⟩ := build_fresh_iff lone "/" {} _ afterWrite rfl
  have learns := learns_build (make lone "/" {}).1 lone []
  have search : afterWrite.builder.search = (make lone "/" {}).1.search := learns.search
  have extensions : afterWrite.builder.options.extensions = ({} : Options).extensions := by
    have options : afterWrite.builder.options = {} := learns.options
    rw [options]
  have tree : afterWrite.tree = lone.write "/lib/b.ts" [] := rfl
  have built : afterWrite.built = [lone] := rfl
  have asks : ∀ t, "/a.ts" ∈ Discovery.files t (make lone "/" {}).1.search →
      Source.record t "/a.ts" = .ok { imports := [{ specifier := "./lib/b" }], lineCount := 1 } →
      Asks (make lone "/" {}).1.search t "/" "./lib/b" :=
    fun t found record => ⟨"/a.ts", found, _, record, by decide +kernel, _,
      List.mem_singleton.2 rfl, rfl, rfl⟩
  have first : FirstAsked (make lone "/" {}).1.search [lone] "/" "./lib/b" lone :=
    ⟨[], [], rfl, asks lone (by decide +kernel) (by with_unfolding_all rfl), nofun⟩
  have again : Asks (make lone "/" {}).1.search (lone.write "/lib/b.ts" []) "/" "./lib/b" :=
    asks _ (by decide +kernel) (by with_unfolding_all rfl)
  have missing : Resolution.resolve lone ({} : Options).extensions "/" "./lib/b" = none := by
    decide +kernel
  have written : Resolution.resolve (lone.write "/lib/b.ts" []) ({} : Options).extensions "/" "./lib/b"
      = some "/lib/b.ts" := by
    decide +kernel
  rw [← search, ← built] at first
  rw [← search, ← tree] at again
  rw [← extensions] at missing
  rw [← extensions, ← tree] at written
  refine ⟨?_, written, ?_⟩
  · rw [(resolves "/" "./lib/b").1 lone first, missing]
  · intro same
    have stays := (builds []).1.1 same "/" "./lib/b" lone again first
    rw [missing, written] at stays
    cases stays

end Builder

end ModuleAtlas
