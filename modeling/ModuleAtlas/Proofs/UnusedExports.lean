/-
ModuleAtlas/Proofs/UnusedExports.lean

Which exports are reported as unused.

The report looks an export up in a table of names, which holds for each file what the imports of
it take.  An import of a whole module takes every name that the file exports, so in the table it
cannot be told from one that lists them all.  `Uses` says what an import does for an export without
the table: it takes the whole module, or the export's own name, or the default where the export is
one.  The two agree on each export of a file (`isTaken_iff`), because a file is found under its own
path, so that the names that a whole module stands for are those of the very file that is asked
about.

Main result: `unused_eq_filter`.  The report is the list of all exports, file after file, of which
only the idle ones are kept.
-/
import ModuleAtlas.Proofs.PublicUse

namespace ModuleAtlas

namespace Usage

variable {g : Graph} {given : List String} {n : Node} {e : Export} {i : Import} {path m : String}

/-! ### What an import does for an export -/

/-- An import of a file is of use for an export of it: it takes the whole module, or the export by
its name, or the default if the export is one. -/
def Uses (i : Import) (e : Export) : Prop :=
  wholeModule ∈ i.names ∨ e.name ∈ i.names ∨ e.isDefault = true ∧ defaultName ∈ i.names

instance (i : Import) (e : Export) : Decidable (Uses i e) :=
  inferInstanceAs (Decidable (_ ∨ _ ∨ _ ∧ _))

/-- An import takes the names that it lists, and with a whole module the names of all exports. -/
theorem mem_namesTaken_iff :
    m ∈ namesTaken g path i ↔
      m ∈ i.names ∧ m ≠ wholeModule ∨
        wholeModule ∈ i.names ∧ ∃ n, g.node? path = some n ∧ ∃ e ∈ n.exports, e.name = m := by
  constructor
  · intro h
    obtain ⟨name, listed, h⟩ := List.mem_flatMap.1 h
    by_cases whole : name = wholeModule
    · subst whole
      rw [if_pos (beq_self_eq_true wholeModule)] at h
      right
      cases found : g.node? path with
      | none =>
        rw [found] at h
        cases h
      | some n =>
        rw [found] at h
        exact ⟨listed, n, rfl, List.mem_map.1 h⟩
    · rw [if_neg (by simpa using whole)] at h
      obtain rfl := List.mem_singleton.1 h
      exact .inl ⟨listed, whole⟩
  · rintro (⟨listed, other⟩ | ⟨whole, n, found, e, he, rfl⟩)
    · exact mem_namesTaken_of_mem listed other
    · refine List.mem_flatMap.2 ⟨wholeModule, whole, ?_⟩
      rw [if_pos (beq_self_eq_true wholeModule), found]
      exact List.mem_map_of_mem he

/-- **The table of names says who uses an export**: some import of the file does. -/
theorem isTaken_iff (node : g.node? n.path = some n) (he : e ∈ n.exports) :
    isTaken (namesOf (names g) n.path) e = true ↔
      ∃ k ∈ g.nodes, ∃ i, k.links.Imports n.path i ∧ Uses i e := by
  unfold isTaken
  rw [Bool.or_eq_true, Bool.and_eq_true, List.contains_iff_mem, List.contains_iff_mem,
    mem_namesOf_names, mem_namesOf_names]
  constructor
  · rintro (⟨k, hk, i, leads, taken⟩ | ⟨main, k, hk, i, leads, taken⟩)
    · refine ⟨k, hk, i, leads, ?_⟩
      rcases mem_namesTaken_iff.1 taken with ⟨listed, -⟩ | ⟨whole, -⟩
      · exact .inr (.inl listed)
      · exact .inl whole
    · refine ⟨k, hk, i, leads, ?_⟩
      rcases mem_namesTaken_iff.1 taken with ⟨listed, -⟩ | ⟨whole, -⟩
      · exact .inr (.inr ⟨main, listed⟩)
      · exact .inl whole
  · rintro ⟨k, hk, i, leads, uses⟩
    -- a whole module has the export among its names
    have byWhole : wholeModule ∈ i.names → e.name ∈ namesTaken g n.path i :=
      fun whole => mem_namesTaken_iff.2 (.inr ⟨whole, n, node, e, he, rfl⟩)
    rcases uses with whole | listed | ⟨main, listed⟩
    · exact .inl ⟨k, hk, i, leads, byWhole whole⟩
    · -- an export may be named like a whole module, and is taken with it then
      by_cases whole : e.name = wholeModule
      · exact .inl ⟨k, hk, i, leads, byWhole (whole ▸ listed)⟩
      · exact .inl ⟨k, hk, i, leads, mem_namesTaken_of_mem listed whole⟩
    · exact .inr ⟨main, k, hk, i, leads, mem_namesTaken_of_mem listed (by decide)⟩

/-! ### The report -/

/-- The exports of the file are looked at: it is no entry, given or by its role, and no barrel. -/
def Ordinary (given : List String) (n : Node) : Prop :=
  n.path ∉ given ∧ n.role ≠ .entry ∧ n.role ≠ .barrel

instance (given : List String) (n : Node) : Decidable (Ordinary given n) :=
  inferInstanceAs (Decidable (_ ∧ _ ∧ _))

/-- Nothing speaks for an export of a file: the file is an ordinary one, it defines the export
itself, and no file, not even this one, has an import of it that is of use. -/
structure Idle (g : Graph) (given : List String) (n : Node) (e : Export) : Prop where
  ordinary : Ordinary given n
  own : e.isReexport = false
  unused : ∀ k ∈ g.nodes, ∀ i, k.links.Imports n.path i → ¬ Uses i e

theorem idle_iff :
    Idle g given n e ↔ Ordinary given n ∧ e.isReexport = false ∧
      ∀ k ∈ g.nodes, ∀ t ∈ k.links.internal, t.1 = n.path → ∀ i ∈ t.2, ¬ Uses i e := by
  constructor
  · rintro ⟨ordinary, own, unused⟩
    refine ⟨ordinary, own, ?_⟩
    rintro k hk ⟨path, is⟩ ht rfl i hi
    exact unused k hk i ⟨is, ht, hi⟩
  · rintro ⟨ordinary, own, unused⟩
    refine ⟨ordinary, own, ?_⟩
    rintro k hk i ⟨is, ht, hi⟩
    exact unused k hk _ ht rfl i hi

instance (g : Graph) (given : List String) (n : Node) (e : Export) :
    Decidable (Idle g given n e) :=
  decidable_of_iff _ idle_iff.symm

/-- All exports, file after file. -/
def records (g : Graph) : List (Node × Export) :=
  g.nodes.flatMap fun n => n.exports.map fun e => (n, e)

/-- What is said of an export of a file. -/
def report (r : Node × Export) : UnusedExport := ⟨r.1.relative, r.2.name, r.2.kind⟩

/-- The reports on one file. -/
def reportsOn (g : Graph) (given : List String) (n : Node) : List UnusedExport :=
  (n.exports.filter fun e => decide (Idle g given n e)).map fun e => report (n, e)

/-- Of an entry and of a barrel nothing is said. -/
theorem reportsOn_eq_nil (h : ¬ Ordinary given n) : reportsOn g given n = [] := by
  unfold reportsOn
  rw [List.map_eq_nil_iff, List.filter_eq_nil_iff]
  intro e _ idle
  exact h (of_decide_eq_true idle).ordinary

theorem unusedOf_eq_reportsOn (node : g.node? n.path = some n) (ordinary : Ordinary given n) :
    unusedOf (names g) n = reportsOn g given n := by
  show (n.exports.filter fun e => !e.isReexport && !isTaken (namesOf (names g) n.path) e).map
    (fun e => report (n, e)) = _
  refine congrArg (List.map _) (List.filter_congr fun e he => ?_)
  rw [Bool.eq_iff_iff, Bool.and_eq_true, Bool.not_eq_true', Bool.not_eq_true', decide_eq_true_eq,
    ← Bool.not_eq_true (isTaken _ _), isTaken_iff node he]
  constructor
  · rintro ⟨own, unused⟩
    exact ⟨ordinary, own, fun k hk i leads uses => unused ⟨k, hk, i, leads, uses⟩⟩
  · rintro ⟨-, own, unused⟩
    refine ⟨own, ?_⟩
    rintro ⟨k, hk, i, leads, uses⟩
    exact unused k hk i leads uses

/-- File after file, the ordinary ones are reported on. -/
theorem flatMap_unusedOf (once : g.paths.Nodup) {ns : List Node} (sub : ∀ n ∈ ns, n ∈ g.nodes) :
    (ns.filter fun n => decide (Ordinary given n)).flatMap (unusedOf (names g)) =
      ns.flatMap (reportsOn g given) := by
  induction ns with
  | nil => rfl
  | cons n ns ih =>
    have node := Graph.node?_of_mem once (sub n List.mem_cons_self)
    have rest := ih fun k hk => sub k (List.mem_cons_of_mem n hk)
    by_cases ordinary : Ordinary given n
    · rw [List.filter_cons_of_pos (by simpa using ordinary), List.flatMap_cons, List.flatMap_cons,
        rest, unusedOf_eq_reportsOn node ordinary]
    · rw [List.filter_cons_of_neg (by simpa using ordinary), List.flatMap_cons,
        reportsOn_eq_nil ordinary, rest, List.nil_append]

/-- **The report of unused exports.**  In a graph that has each path once, the report says of each
idle export what there is to say, and nothing of any other; it does so once for each, file after
file in the order of the graph and export after export in the order of the file. -/
theorem unused_eq_filter (g : Graph) (given : List String) (once : g.paths.Nodup) :
    unused g given = ((records g).filter fun r => decide (Idle g given r.1 r.2)).map report := by
  have looked : (fun n : Node =>
      !(given.contains n.path || n.role == .entry || n.role == .barrel)) =
        fun n => decide (Ordinary given n) := by
    funext n
    rw [Bool.eq_iff_iff, decide_eq_true_eq]
    simp [Ordinary, and_assoc]
  unfold unused records
  dsimp only
  rw [looked, flatMap_unusedOf once fun n hn => hn, List.filter_flatMap, List.map_flatMap]
  apply List.flatMap_congr
  intro n _
  rw [List.filter_map, List.map_map]
  rfl

/-- A file that uses one of its exports itself, with a second one that goes to the other file as
the default and a third that it passes on, and next to them a barrel. -/
def halfUsed : Graph where
  root := "/"
  nodes :=
    [{ path := "/a.ts"
       relative := "a.ts"
       links :=
         { internal := [("/a.ts", [{ specifier := "./a", names := ["self"] }])]
           distinct := by decide }
       exports :=
         [{ name := "self" }, { name := "run", isDefault := true }, { name := "stop" },
          { name := "b", isReexport := true, remote := some "b", source := some "./b" }] },
     { path := "/b.ts"
       relative := "b.ts"
       links :=
         { internal := [("/a.ts", [{ specifier := "./a", names := ["default"] }])]
           distinct := by decide }
       exports := [{ name := "b", kind := .constant }] },
     { path := "/index.ts", relative := "index.ts", exports := [{ name := "c" }],
       role := .barrel }]

theorem unused_eq_filter_halfUsed :
    halfUsed.paths.Nodup ∧
      unused halfUsed [] = [⟨"a.ts", "stop", .unknown⟩, ⟨"b.ts", "b", .constant⟩] ∧
      ((records halfUsed).filter fun r => decide (Idle halfUsed [] r.1 r.2)).map report =
        [⟨"a.ts", "stop", .unknown⟩, ⟨"b.ts", "b", .constant⟩] := by
  have once : halfUsed.paths.Nodup := by decide
  have idle : ((records halfUsed).filter fun r => decide (Idle halfUsed [] r.1 r.2)).map report =
      [⟨"a.ts", "stop", .unknown⟩, ⟨"b.ts", "b", .constant⟩] := by decide +kernel
  exact ⟨once, (unused_eq_filter halfUsed [] once).trans idle, idle⟩

end Usage

end ModuleAtlas
