/-
ModuleAtlas/Proofs/EntryTargets.lean

Whether a target that makes a file an entry also stands for it.

An entry is found as an import from the root would be: as it is written, with a suffix added, as
the source of an output, or as the index of a folder.  Whether a target stands for a file is a
matter of keys instead, which know neither folders with an index nor what was added.  `Strays`
lists how a file is found that the target does not stand for, and `isFor_or_strays` says that there
is no other way.  With extensions that are single suffixes each of these ways is one
(`isFor_eq_false_of_strays`).

Main result: `entry_isFor_or_strays`.  In a built graph a file that a plain target makes an entry
is one that the target stands for, unless it strays; and where the target stands for it, no exports
map with that target counts it as internal, and all flows of its exports carry the conditions of
that target.
-/
import ModuleAtlas.Proofs.ProductionUse
import ModuleAtlas.Proofs.SubpathConditions
import ModuleAtlas.Proofs.TargetKeys

namespace ModuleAtlas

namespace Path

variable {cs w x : List Char}

theorem below_append (n : Nat) (parts : List (List Char)) (cs w : List Char) :
    below n parts cs ++ w = below n parts (cs ++ w) := by
  unfold below
  simp only [List.append_assoc]

theorem IsPlain.isStep_lastOf (h : IsPlain cs) : IsStep (lastOf cs) := by
  obtain ⟨folders, whole, -⟩ := exists_segments_append cs
  apply h.steps
  rw [whole]
  exact List.mem_append_right _ (List.mem_singleton.2 rfl)

/-- Where a plain text ends in a suffix, it can end in another one. -/
theorem IsPlain.append_dot (h : IsPlain (cs ++ x)) (within : '/' ∉ x)
    (step : IsStep (lastOf cs ++ '.' :: w)) (plain : '\\' ∉ w) : IsPlain (cs ++ '.' :: w) := by
  obtain ⟨folders, -, eq⟩ := exists_segments_append cs
  have single : '/' ∉ '.' :: w := fun inside => step.single (List.mem_append_right _ inside)
  constructor
  · intro p hp
    rw [eq _ single] at hp
    rcases List.mem_append.1 hp with hp | hp
    · apply h.steps
      rw [eq x within]
      exact List.mem_append_left _ hp
    · rw [List.mem_singleton.1 hp]
      exact step
  · intro inside
    rcases List.mem_append.1 inside with inside | inside
    · exact h.slashes (List.mem_append_left _ inside)
    · rcases List.mem_cons.1 inside with dot | inside
      · exact absurd dot (by decide)
      · exact plain inside

/-- A step stays one when a suffix is added. -/
theorem IsStep.append_dot (h : IsStep cs) (single : '/' ∉ w) : IsStep (cs ++ '.' :: w) where
  full := by simp
  moves eq := by
    rcases List.append_eq_singleton_iff.1 eq with ⟨rfl, -⟩ | ⟨-, rest⟩
    · exact h.full rfl
    · cases rest
  down eq := by
    have size := congrArg List.length eq
    rw [List.length_append, List.length_cons] at size
    rcases cs with - | ⟨c, - | ⟨d, cs⟩⟩
    · exact h.full rfl
    · obtain ⟨rfl, -⟩ := List.cons.inj eq
      exact h.moves rfl
    · simp only [back, List.length_cons, List.length_nil] at size
      omega
  single inside := by
    rcases List.mem_append.1 inside with inside | inside
    · exact h.single inside
    · rcases List.mem_cons.1 inside with slash | inside
      · exact absurd slash (by decide)
      · exact single inside

/-- A plain text stays plain when a suffix is added. -/
theorem IsPlain.append_suffix (h : IsPlain cs) (single : '/' ∉ w) (plain : '\\' ∉ w) :
    IsPlain (cs ++ '.' :: w) :=
  IsPlain.append_dot (by rwa [List.append_nil]) List.not_mem_nil
    (h.isStep_lastOf.append_dot single) plain

/-- A text with more than dots in it is a step, as long as it has no slash. -/
theorem isStep_of_named (named : ∃ c ∈ cs, c ≠ '.') (single : '/' ∉ cs) : IsStep cs := by
  obtain ⟨c, hc, other⟩ := named
  refine ⟨?_, ?_, ?_, single⟩
  · rintro rfl
    cases hc
  · rintro rfl
    exact other (List.mem_singleton.1 hc)
  · rintro rfl
    simp only [back, List.mem_cons, List.not_mem_nil, or_false, or_self] at hc
    exact other hc

end Path

namespace Target

open ModuleAtlas.Path (lastOf segments IsPlain IsStep steps)

variable {extensions : List String} {root target : String} {n : Node}

/-! ### How files stray -/

/-- The extension is a dot and something without one. -/
def IsSuffix (e : String) : Prop :=
  ∃ w, e.toList = '.' :: w ∧ '.' ∉ w ∧ '/' ∉ w ∧ '\\' ∉ w

/-- The file is found for a target that does not stand for it: as the index of a folder; with an
extension added that is no single suffix, or behind a suffix that the target has already; or as the
declaration that the output of a declaration's name would come from. -/
inductive Strays (extensions : List String) (root target : String) (n : Node) : Prop
  | index {e : String} (listed : e ∈ extensions)
      (found : n.path = Path.join (Resolution.base root target) ("index" ++ e))
  | added {e : String} (listed : e ∈ extensions) (found : n.path = Resolution.base root target ++ e)
      (odd : ¬ IsSuffix e ∨ '.' ∈ lastOf (withoutDots target.toList) ∧
        stem (withoutDots target.toList ++ e.toList) ≠ stem (withoutDots target.toList))
  | declaration {front o s : List Char}
      (source : String.ofList ('.' :: s) ∈ Resolution.sourceSuffixes (String.ofList ('.' :: o)))
      (declares : s ∈ declared) (given : withoutDots target.toList = front ++ ['.', 'd'] ++ '.' :: o)
      (found : n.relative = String.ofList (front ++ ['.', 'd'] ++ '.' :: s))

/-- The suffixes of outputs and of their sources. -/
theorem exists_of_mem_sourceSuffixes {s : String} {o : List Char}
    (h : s ∈ Resolution.sourceSuffixes (String.ofList ('.' :: o))) :
    (o ∉ declared ∧ '.' ∉ o ∧ '/' ∉ o) ∧
      ∃ w, s = String.ofList ('.' :: w) ∧ '.' ∉ w ∧ '/' ∉ w ∧ '\\' ∉ w := by
  have outputs : String.ofList ('.' :: o) ∈ [".js", ".jsx", ".mjs", ".cjs"] := by
    unfold Resolution.sourceSuffixes at h
    split at h
    · next eq => simp [eq]
    · next eq => simp [eq]
    · next eq => simp [eq]
    · next eq => simp [eq]
    · cases h
  have sources : ∀ u ∈ [".js", ".jsx", ".mjs", ".cjs"],
      (u.toList.tail ∉ declared ∧ '.' ∉ u.toList.tail ∧ '/' ∉ u.toList.tail) ∧
      ∀ s ∈ Resolution.sourceSuffixes u, s.toList.head? = some '.' ∧ '.' ∉ s.toList.tail ∧
        '/' ∉ s.toList.tail ∧ '\\' ∉ s.toList.tail := by
    decide
  obtain ⟨undeclared, all⟩ := sources _ outputs
  rw [String.toList_ofList] at undeclared
  obtain ⟨head, dot, slash, backslash⟩ := all s h
  refine ⟨undeclared, s.toList.tail, ?_, dot, slash, backslash⟩
  rw [List.eq_cons_of_mem_head? (Option.mem_def.2 head) |>.symm, String.ofList_toList]

/-! ### Paths behind the steps of the root -/

variable {k : Nat} {v : List Char}

theorem lastOf_below_nil (front : 0 < k) (parts : List (List Char)) :
    lastOf (Path.below k parts []) = [] := by
  unfold Path.below
  rw [List.append_nil, Path.lastOf_append_of_nil, Path.lastOf_flatMap]
  unfold lastOf
  rw [List.reverse_replicate]
  cases k with
  | zero => cases front
  | succ k => simp [List.replicate_succ]

/-- The suffix of a path is that of the text behind the steps of the root. -/
theorem exists_of_splitSuffix_below (front : 0 < k) {parts : List (List Char)} {s : String}
    (source : s ∈ Resolution.sourceSuffixes
      (Path.splitSuffix (String.ofList (Path.below k parts v))).2) :
    ∃ stem o, v = stem ++ '.' :: o ∧ '.' ∉ o ∧ '/' ∉ o ∧ (∃ c ∈ lastOf stem, c ≠ '.') ∧
      (Path.splitSuffix (String.ofList (Path.below k parts v))).1 =
        String.ofList (Path.below k parts stem) ∧
      s ∈ Resolution.sourceSuffixes (String.ofList ('.' :: o)) := by
  have outside := lastOf_below_nil front parts
  have behind : ∀ cs, Path.below k parts cs = Path.below k parts [] ++ cs := by
    intro cs
    rw [Path.below_append, List.nil_append]
  rcases Path.splitSuffix_cases (Path.below k parts v) with
    none | ⟨whole, o, cut, last, single, ⟨c, hc, other⟩, split⟩
  · rw [none] at source
    cases source
  · rw [split] at source
    rw [behind v] at cut
    rcases List.append_eq_append_iff.1 cut with ⟨stem, rfl, eq⟩ | ⟨more, eq, rest⟩
    · refine ⟨stem, o, eq, last, single, ⟨c, ?_, other⟩, ?_, source⟩
      · rwa [Path.lastOf_append_of_nil outside] at hc
      · rw [split, behind stem]
    · -- the dot cannot stand before the last slash of the root
      have free : '/' ∉ more := by
        intro slash
        have inside : '/' ∈ '.' :: o := rest ▸ List.mem_append_left v slash
        rcases List.mem_cons.1 inside with dot | inside
        · exact absurd dot (by decide)
        · exact single inside
      rw [eq, Path.lastOf_append _ free] at outside
      rw [(List.append_eq_nil_iff.1 outside).1] at hc
      cases hc

theorem ofList_below_append (k : Nat) (parts : List (List Char)) (cs : List Char) (e : String) :
    String.ofList (Path.below k parts cs) ++ e =
      String.ofList (Path.below k parts (cs ++ e.toList)) := by
  apply String.toList_inj.1
  rw [String.toList_append, String.toList_ofList, String.toList_ofList, Path.below_append]

/-- A single suffix goes off again, where there was no dot before it. -/
theorem stem_append_of_notMem {cs w : List Char} (plain : IsPlain cs) (bare : '.' ∉ lastOf cs)
    (last : '.' ∉ w) (single : '/' ∉ w) : stem (cs ++ '.' :: w) = stem cs := by
  rw [stem_of_notMem bare]
  apply stem_append last single
  · obtain ⟨c, hc⟩ := List.exists_mem_of_ne_nil _ plain.isStep_lastOf.full
    exact ⟨c, hc, fun dot => bare (dot ▸ hc)⟩
  · rintro - front rfl
    rw [Path.lastOf_append front (by decide)] at bare
    exact absurd (List.mem_append_right _ List.mem_cons_self) bare

/-- What is joined to a plain path goes behind a slash. -/
theorem join_below (k : Nat) (parts : List (List Char)) {cs : List Char} (plain : IsPlain cs)
    (e : String) : Path.join (String.ofList (Path.below k parts cs)) ("index" ++ e) =
      String.ofList (Path.below k parts (cs ++ '/' :: ("index".toList ++ e.toList))) := by
  have step := plain.isStep_lastOf
  have given : Path.isAbsolute ("index" ++ e) = false := by
    unfold Path.isAbsolute
    rw [String.toList_append]
    rfl
  have ends : (Path.below k parts cs).getLast? ≠ some '/' := by
    obtain ⟨folder, whole, -⟩ := Path.exists_eq_append_lastOf cs
    intro slash
    rw [whole, ← Path.below_append, List.getLast?_append_of_ne_nil _ step.full] at slash
    exact step.single (List.mem_of_getLast? slash)
  have full : (String.ofList (Path.below k parts cs)).isEmpty = false := by
    rw [Bool.eq_false_iff]
    intro empty
    have nil : Path.below k parts cs = [] := by
      have eq := congrArg String.toList (String.isEmpty_iff.1 empty)
      rwa [String.toList_ofList] at eq
    unfold Path.below at nil
    exact plain.ne_nil (List.append_eq_nil_iff.1 (List.append_eq_nil_iff.1 nil).2).2
  unfold Path.join
  rw [if_neg (by rw [given]; exact Bool.false_ne_true), full, Bool.false_or, String.toList_ofList,
    if_neg (by simpa using ends)]
  apply String.toList_inj.1
  rw [← Path.below_append]
  simp only [String.toList_append, String.toList_ofList, List.append_assoc]
  rfl

theorem isPlain_index {cs w : List Char} (plain : IsPlain cs) (single : '/' ∉ w)
    (slashes : '\\' ∉ w) : IsPlain (cs ++ '/' :: ("index".toList ++ '.' :: w)) := by
  have step : IsStep ("index".toList ++ '.' :: w) :=
    IsStep.append_dot (by decide) single
  constructor
  · intro p hp
    have cut : segments (cs ++ '/' :: ("index".toList ++ '.' :: w)) =
        segments cs ++ segments ("index".toList ++ '.' :: w) := Text.split_append '/' cs _
    have alone : segments ("index".toList ++ '.' :: w) = ["index".toList ++ '.' :: w] :=
      Text.split_of_notMem step.single
    rw [cut, alone] at hp
    rcases List.mem_append.1 hp with hp | hp
    · exact plain.steps p hp
    · rw [List.mem_singleton.1 hp]
      exact step
  · simpa using ⟨plain.slashes, slashes⟩

section

variable (absolute : Path.isAbsolute root = true) (plain : IsPlain (withoutDots target.toList))
  (starless : '*' ∉ target.toList) (relative : n.relative = Path.relative n.path root)

include absolute plain starless

/-- What stands behind the steps of the root is seen from there, and where its stem is that of the
target, the target stands for it. -/
theorem isFor_of_stem_eq (front : 0 < k) (below : IsPlain v)
    (same : stem v = stem (withoutDots target.toList)) :
    isFor target (Path.relative (String.ofList (Path.below k (steps root) v)) root) = true := by
  rw [Path.relative_below front absolute below, isFor_iff plain starless below]
  unfold keyParts
  rw [same]

include relative

/-! ### The ways to a file -/

theorem isFor_or_strays_added {e : String} (listed : e ∈ extensions)
    (found : n.path = Resolution.base root target ++ e) :
    isFor target n.relative = true ∨ Strays extensions root target n := by
  obtain ⟨k, front, base⟩ := Path.exists_base_eq absolute plain
  by_cases suffix : IsSuffix e
  · by_cases odd : '.' ∈ lastOf (withoutDots target.toList) ∧
        stem (withoutDots target.toList ++ e.toList) ≠ stem (withoutDots target.toList)
    · exact .inr (.added listed found (.inr odd))
    · obtain ⟨w, spelled, last, single, slashes⟩ := suffix
      have same : stem (withoutDots target.toList ++ '.' :: w)
          = stem (withoutDots target.toList) := by
        by_cases dotted : '.' ∈ lastOf (withoutDots target.toList)
        · rw [spelled] at odd
          exact Decidable.of_not_not fun other => odd ⟨dotted, other⟩
        · exact stem_append_of_notMem plain dotted last single
      have longer := plain.append_suffix single slashes
      rw [relative, found, base, ofList_below_append, spelled]
      exact .inl (isFor_of_stem_eq absolute plain starless front longer same)
  · exact .inr (.added listed found (.inl suffix))

theorem isFor_or_strays_source {s : String}
    (source : s ∈ Resolution.sourceSuffixes (Path.splitSuffix (Resolution.base root target)).2)
    (found : n.path = (Path.splitSuffix (Resolution.base root target)).1 ++ s) :
    isFor target n.relative = true ∨ Strays extensions root target n := by
  obtain ⟨k, front, base⟩ := Path.exists_base_eq absolute plain
  rw [base] at source found
  obtain ⟨cs, o, given, last, single, named, split, source⟩ :=
    exists_of_splitSuffix_below front source
  obtain ⟨⟨undeclared, -⟩, w, rfl, last', single', slashes⟩ := exists_of_mem_sourceSuffixes source
  have within : '/' ∉ '.' :: o := by simpa using single
  have other : IsPlain (cs ++ '.' :: w) := by
    rw [given] at plain
    apply IsPlain.append_dot plain within _ slashes
    exact (Path.isStep_of_named named (Path.notMem_lastOf cs)).append_dot single'
  have seen : n.path = String.ofList (Path.below k (steps root) (cs ++ '.' :: w)) := by
    rw [found, split, ofList_below_append, String.toList_ofList]
  by_cases declares : w ∈ declared ∧ ∃ f, cs = f ++ ['.', 'd']
  · obtain ⟨declares, f, rfl⟩ := declares
    refine .inr (.declaration source declares given ?_)
    rw [relative, seen, Path.relative_below front absolute other]
  · have mine : stem (withoutDots target.toList) = cs := by
      rw [given]
      exact stem_append last single named fun h => absurd h undeclared
    have theirs : stem (cs ++ '.' :: w) = cs :=
      stem_append last' single' named fun h f eq => declares ⟨h, f, eq⟩
    rw [relative, seen]
    exact .inl (isFor_of_stem_eq absolute plain starless front other (theirs.trans mine.symm))

/-- **How entries are found**: a file that an import from the root could mean is one that the
target stands for, or it strays. -/
theorem isFor_or_strays
    (candidate : n.path ∈ Resolution.candidates (Resolution.base root target) extensions) :
    isFor target n.relative = true ∨ Strays extensions root target n := by
  unfold Resolution.candidates at candidate
  simp only [List.cons_append, List.mem_cons, List.mem_append, List.mem_map] at candidate
  rcases candidate with written | ((⟨e, listed, added⟩ | ⟨s, source, output⟩) | ⟨e, listed, index⟩)
  · obtain ⟨k, front, base⟩ := Path.exists_base_eq absolute plain
    rw [relative, written, base]
    exact .inl (isFor_of_stem_eq absolute plain starless front plain rfl)
  · exact isFor_or_strays_added absolute plain starless relative listed added.symm
  · exact isFor_or_strays_source absolute plain starless relative source output.symm
  · exact .inr (.index listed index.symm)

/-- **Files that stray** are not stood for, where every extension is a single suffix. -/
theorem isFor_eq_false_of_strays (suffixes : ∀ e ∈ extensions, IsSuffix e)
    (strays : Strays extensions root target n) : isFor target n.relative = false := by
  obtain ⟨k, front, base⟩ := Path.exists_base_eq absolute plain
  rw [Bool.eq_false_iff]
  intro stands
  cases strays with
  | @index e listed found =>
    obtain ⟨w, spelled, -, single, slashes⟩ := suffixes e listed
    have longer := isPlain_index plain single slashes
    rw [relative, found, base, join_below k _ plain, spelled,
      Path.relative_below front absolute longer, isFor_iff plain starless longer] at stands
    exact keyParts_index_ne _ (by simpa using single) stands.symm
  | @added e listed found odd =>
    obtain ⟨w, spelled, last, single, slashes⟩ := suffixes e listed
    have odd := odd.resolve_left fun no => no (suffixes e listed)
    have longer := plain.append_suffix single slashes
    rw [relative, found, base, ofList_below_append, spelled,
      Path.relative_below front absolute longer, isFor_iff plain starless longer] at stands
    obtain ⟨folders, here, eq⟩ := Path.exists_segments_append (withoutDots target.toList)
    have same := (keyParts_eq_iff here (eq ('.' :: w) (by simpa using single))).1 stands
    rw [spelled] at odd
    exact odd.2 same.symm
  | @declaration f o s source declares given found =>
    obtain ⟨⟨undeclared, last, within⟩, w, spelled, -, single, slashes⟩ :=
      exists_of_mem_sourceSuffixes source
    obtain rfl : s = w := (List.cons.inj (String.ofList_inj.1 spelled)).2
    have named : ∃ c ∈ lastOf (f ++ ['.', 'd']), c ≠ '.' := by
      rw [Path.lastOf_append f (by decide)]
      exact ⟨'d', by simp, by decide⟩
    have within' : '/' ∉ '.' :: o := by simpa using within
    have other : IsPlain (f ++ ['.', 'd'] ++ '.' :: s) := by
      rw [given] at plain
      apply IsPlain.append_dot plain within' _ slashes
      exact (Path.isStep_of_named named (Path.notMem_lastOf _)).append_dot single
    rw [found, isFor_iff plain starless other, given] at stands
    obtain ⟨folders, -, eq⟩ := Path.exists_segments_append (f ++ ['.', 'd'])
    have same := (keyParts_eq_iff (eq _ within') (eq ('.' :: s) (by simpa using single))).1 stands
    rw [stem_append last within named fun h => absurd h undeclared, stem_declaration f declares]
      at same
    simp at same

end

end Target

/-! ### What a target brings to its files -/

/-- A file that a target of the map stands for is not internal. -/
theorem ExportsMap.notMem_unreached {m : ExportsMap} {target relative : String} (g : Graph)
    (listed : target ∈ m.targets) (stands : Target.isFor target relative = true) :
    relative ∉ m.unreached g := by
  intro h
  unfold unreached at h
  obtain ⟨n, kept, rfl⟩ := List.mem_map.1 (List.mem_mergeSort.1 h)
  obtain ⟨-, apart⟩ := List.mem_filter.1 kept
  rw [Bool.and_eq_true, Bool.not_eq_true', Bool.not_eq_true', List.any_eq_false] at apart
  exact apart.2 target listed stands

namespace Flow

variable {g : Graph} {n : Node} {e : Export} {flows : List (String × Flow)} {cs : List String}
  {name condition : String}

/-- There is a flow of the name, and every one has the condition. -/
structure Carries (flows : List (String × Flow)) (name condition : String) : Prop where
  some : ∃ f, (name, f) ∈ flows
  all : ∀ f, (name, f) ∈ flows → condition ∈ f.conditions

theorem mem_conditions_publish {f : Flow} :
    condition ∈ (publish n cs f).conditions ↔ condition ∈ f.conditions ∨ condition ∈ cs :=
  mem_foldl_insertNew

/-- A condition that an entry is used under goes to the flow of each of its exports. -/
theorem carries_addExport (h : condition ∈ cs) :
    Carries (addExport g n cs flows e) e.name condition := by
  unfold addExport
  split
  · next known =>
    obtain ⟨⟨name, f⟩, mem, same⟩ := List.any_eq_true.1 known
    obtain rfl : name = e.name := by simpa using same
    constructor
    · exact ⟨publish n cs f, List.mem_map.2 ⟨_, mem, by simp⟩⟩
    · intro f' mem'
      obtain ⟨⟨name', k⟩, -, eq⟩ := List.mem_map.1 mem'
      by_cases same' : name' = e.name
      · simp only [same', beq_self_eq_true, if_true, Prod.mk.injEq, true_and] at eq
        rw [← eq, mem_conditions_publish]
        exact .inr h
      · simp only [beq_false_of_ne same', Bool.false_eq_true, if_false, Prod.mk.injEq] at eq
        exact absurd eq.1 same'
  · next new =>
    constructor
    · exact ⟨_, List.mem_append_right _ (List.mem_singleton.2 rfl)⟩
    · intro f mem
      rcases List.mem_append.1 mem with mem | mem
      · exact absurd (List.any_eq_true.2 ⟨_, mem, beq_self_eq_true e.name⟩) new
      · rw [(Prod.mk.inj (List.mem_singleton.1 mem)).2, mem_conditions_publish]
        exact .inr h

/-- No export of another entry takes a condition away. -/
theorem Carries.addExport (h : Carries flows name condition) (g : Graph) (n : Node)
    (cs : List String) (e : Export) : Carries (addExport g n cs flows e) name condition := by
  obtain ⟨f, mem⟩ := h.some
  unfold Flow.addExport
  split
  · constructor
    · refine ⟨if name = e.name then publish n cs f else f, List.mem_map.2 ⟨_, mem, ?_⟩⟩
      by_cases same : name = e.name <;> simp [same]
    · intro f' mem'
      obtain ⟨⟨name', k⟩, kept, eq⟩ := List.mem_map.1 mem'
      by_cases same : name' = e.name
      · simp only [same, beq_self_eq_true, if_true, Prod.mk.injEq] at eq
        obtain ⟨rfl, rfl⟩ := eq
        rw [mem_conditions_publish]
        exact .inl (h.all k (same ▸ kept))
      · simp only [beq_false_of_ne same, Bool.false_eq_true, if_false, Prod.mk.injEq] at eq
        obtain ⟨rfl, rfl⟩ := eq
        exact h.all k kept
  · next new =>
    refine ⟨⟨f, List.mem_append_left _ mem⟩, fun f' mem' => ?_⟩
    rcases List.mem_append.1 mem' with mem' | mem'
    · exact h.all f' mem'
    · have same : name = e.name := (Prod.mk.inj (List.mem_singleton.1 mem')).1
      exact absurd (List.any_eq_true.2 ⟨_, mem, by simp [same]⟩) new

theorem Carries.addExports (h : Carries flows name condition) (g : Graph) (n : Node)
    (cs : List String) (es : List Export) :
    Carries (es.foldl (Flow.addExport g n cs) flows) name condition := by
  induction es generalizing flows with
  | nil => exact h
  | cons e es ih => exact ih (h.addExport g n cs e)

theorem carries_addExports {es : List Export} (he : e ∈ es) (h : condition ∈ cs) :
    Carries (es.foldl (addExport g n cs) flows) e.name condition := by
  induction es generalizing flows with
  | nil => cases he
  | cons x es ih =>
    rcases List.mem_cons.1 he with rfl | he
    · exact (carries_addExport h).addExports g n cs es
    · exact ih he

/-- **Flows carry the conditions of their entries.** -/
theorem carries_all {given : List String} {map : Option ExportsMap} {excluded : List String}
    (entry : n.path ∈ entryFiles g given) (node : g.node? n.path = some n) (he : e ∈ n.exports)
    (h : condition ∈ conditionsOf map excluded n.relative) :
    Carries (all g given map excluded) e.name condition := by
  have mem : n ∈ (entryFiles g given).filterMap g.node? := List.mem_filterMap.2 ⟨_, entry, node⟩
  -- the entries before it do not matter, and those behind it take nothing away
  obtain ⟨before, after, eq⟩ := List.append_of_mem mem
  unfold all
  rw [eq, List.foldl_append, List.foldl_cons]
  generalize before.foldl _ [] = flows
  have here : Carries
      (n.exports.foldl (addExport g n (conditionsOf map excluded n.relative)) flows)
      e.name condition := carries_addExports he h
  generalize n.exports.foldl _ flows = flows at here ⊢
  clear eq mem
  induction after generalizing flows with
  | nil => exact here
  | cons k after ih => exact ih _ (here.addExports g k _ k.exports)

theorem mem_conditionsOf {m : ExportsMap} {excluded : List String} {relative : String}
    {c : ExportCondition} (hc : c ∈ m.paths.flatMap ExportPath.conditions)
    (kept : excluded.contains (Manifest.exclusion c.condition) = false)
    (stands : Target.isFor c.target relative = true) :
    c.condition ∈ conditionsOf (some m) excluded relative := by
  have used : isUsed excluded relative c = true := by
    unfold isUsed
    rw [kept, stands]
    rfl
  rw [conditionsOf_some, mem_foldl_insertNew]
  exact .inr (List.mem_map_of_mem (List.mem_filter.2 ⟨hc, used⟩))

end Flow

/-! ### Entries of built graphs -/

namespace Graph

variable {g : Graph} {extensions : List String} {entry path : String}

/-- An entry is a file that an import from the root could mean, or one that it stands for. -/
theorem cases_of_entryFile? (found : g.entryFile? extensions entry = some path) :
    namesFile entry = true ∧
      (path ∈ Resolution.candidates (Resolution.base g.root entry) extensions ∧
          g.has path = true ∨
        ∃ n ∈ g.nodes, n.path = path ∧ Target.isFor entry n.relative = true) := by
  rw [entryFile?_eq] at found
  split at found
  · next names =>
    refine ⟨names, ?_⟩
    rcases Option.or_eq_some_iff.1 found with found | ⟨-, found⟩
    · exact .inl ⟨List.mem_of_find?_eq_some found, List.find?_some found⟩
    · obtain ⟨n, first, rfl⟩ := Option.map_eq_some_iff.1 found
      have stands : Target.isFor entry n.relative = true := by simpa using List.find?_some first
      exact .inr ⟨n, List.mem_of_find?_eq_some first, rfl, stands⟩
  · cases found

theorem mem_flowEntries {n : Node} (given : List String) (h : n ∈ g.nodes)
    (role : n.role = .entry) : n.path ∈ Flow.entryFiles g given := by
  unfold Flow.entryFiles
  rw [List.mem_mergeSort, List.mem_filter, mem_foldl_insertNew, List.mem_append]
  exact ⟨.inr (.inr (mem_entries.2 ⟨n, h, role, rfl⟩)), has_of_mem h⟩

end Graph

namespace Builder

variable {b : Builder} {t : FileTree} {entries : List String} {target path : String} {n : Node}

theorem root_build (b : Builder) (t : FileTree) (entries : List String) :
    (b.build t entries).1.root = b.root := by
  obtain ⟨importers, exports, eq⟩ := exists_build_eq b t entries
  rw [eq]
  rfl

theorem relative_of_mem_build (h : n ∈ (b.build t entries).1.nodes) :
    n.relative = Path.relative n.path b.root := by
  obtain ⟨importers, exports, eq⟩ := exists_build_eq b t entries
  rw [eq] at h
  obtain ⟨k, own, rfl⟩ := List.mem_map.1 h
  show k.relative = Path.relative k.path b.root
  exact relative_of_mem_ownGraph own

/-- A file that an entry of a build means plays that role. -/
theorem role_of_entryFile? (listed : target ∈ entries)
    (found : (b.build t entries).1.entryFile? b.options.extensions target = some n.path)
    (h : n ∈ (b.build t entries).1.nodes) : n.role = .entry := by
  obtain ⟨importers, exports, eq⟩ := exists_build_eq b t entries
  rw [eq, Graph.entryFile?_map (fun _ => by rfl) (fun _ => by rfl)] at found
  rw [eq] at h
  obtain ⟨k, own, rfl⟩ := List.mem_map.1 h
  refine Role.ofFile_eq_entry_iff.2 (List.contains_iff_mem.2 ?_)
  exact Graph.mem_entryFiles.2 ⟨target, listed, found⟩

/-- **Targets and entries.**  Let a target that is spelled plainly mean a file of a built graph.
The target stands for the file unless that strays; where all extensions are single suffixes, it
does not stand for a file that strays.  Where it stands for the file, no exports map with the
target counts the file as internal, and if the target or anything else made the file an entry, the
flows of its exports carry the conditions of the target that are not left out. -/
theorem entry_isFor_or_strays (absolute : Path.isAbsolute b.root = true)
    (plain : Path.IsPlain (Target.withoutDots target.toList))
    (found : (b.build t entries).1.entryFile? b.options.extensions target = some path) :
    ∃ n, (b.build t entries).1.node? path = some n ∧ (target ∈ entries → n.role = .entry) ∧
      (Target.isFor target n.relative = true ∨
        Target.Strays b.options.extensions b.root target n) ∧
      ((∀ e ∈ b.options.extensions, Target.IsSuffix e) →
        Target.Strays b.options.extensions b.root target n →
          Target.isFor target n.relative = false) ∧
      (Target.isFor target n.relative = true → ∀ m : ExportsMap, target ∈ m.targets →
        n.relative ∉ (m.withGraph (b.build t entries).1).internalOnly ∧
        (n.role = .entry → ∀ given excluded, ∀ c ∈ m.paths.flatMap ExportPath.conditions,
          c.target = target → excluded.contains (Manifest.exclusion c.condition) = false →
            ∀ e ∈ n.exports, Flow.Carries
              (Flow.all (b.build t entries).1 given (some m) excluded) e.name c.condition)) := by
  obtain ⟨names, ways⟩ := Graph.cases_of_entryFile? found
  have starless : '*' ∉ target.toList := by
    unfold Graph.namesFile at names
    simp only [Bool.and_eq_true, Bool.not_eq_true', List.contains_eq_mem, decide_eq_false_iff_not]
      at names
    exact names.2
  obtain ⟨n, node⟩ : ∃ n, (b.build t entries).1.node? path = some n := by
    rcases ways with ⟨-, has⟩ | ⟨k, hk, rfl, -⟩
    · exact Graph.exists_node?_of_has has
    · exact Graph.exists_node?_of_has (Graph.has_of_mem hk)
  obtain rfl : n.path = path := Graph.path_of_node? node
  have mem : n ∈ (b.build t entries).1.nodes := List.mem_of_find?_eq_some node
  have relative := relative_of_mem_build mem
  refine ⟨n, node, fun listed => role_of_entryFile? listed found mem, ?_,
    Target.isFor_eq_false_of_strays absolute plain starless relative, ?_⟩
  · rcases ways with ⟨candidate, -⟩ | ⟨k, hk, same, stands⟩
    · rw [root_build] at candidate
      exact Target.isFor_or_strays absolute plain starless relative candidate
    · rw [relative_of_mem_build hk, same, ← relative] at stands
      exact .inl stands
  · intro stands m inMap
    refine ⟨ExportsMap.notMem_unreached _ inMap stands, ?_⟩
    rintro role given excluded c hc rfl kept e he
    have entry := Graph.mem_flowEntries given mem role
    exact Flow.carries_all entry node he (Flow.mem_conditionsOf hc kept stands)

/-- One source in the folder of sources. -/
def inSources (name : String) : FileTree := .folder [("src", .folder [(name, .file [])])]

/-- The graph of that source, where a target is given. -/
def graphOf (name target : String) : Graph :=
  ((make (inSources name) "/" {}).1.build (inSources name) [target]).1

/-- An output makes its source an entry, and stands for it. -/
theorem entry_isFor_output :
    ∃ n, (graphOf "a.ts" "./src/a.js").node? "/src/a.ts" = some n ∧ n.role = .entry ∧
      Target.isFor "./src/a.js" n.relative = true ∧
      ∀ m : ExportsMap, "./src/a.js" ∈ m.targets →
        n.relative ∉ (m.withGraph (graphOf "a.ts" "./src/a.js")).internalOnly := by
  have found : (graphOf "a.ts" "./src/a.js").entryFile?
      (make (inSources "a.ts") "/" {}).1.options.extensions "./src/a.js" = some "/src/a.ts" := by
    decide +kernel
  obtain ⟨n, node, role, -, -, brings⟩ :=
    entry_isFor_or_strays (by decide) (by decide +kernel) found
  have stands : Target.isFor "./src/a.js" n.relative = true := by
    rw [relative_of_mem_build (List.mem_of_find?_eq_some node), Graph.path_of_node? node]
    decide +kernel
  refine ⟨n, node, role (List.mem_singleton.2 rfl), stands, fun m listed => ?_⟩
  exact (brings stands m listed).1

/-- Targets that make a file an entry and do not stand for it: the folder of an index, a name with
a dot of its own, the output of a declaration's name, and one that is not spelled plainly.  So the
index of a folder that an exports map gives is counted as internal. -/
theorem entry_not_isFor :
    (∀ x ∈ [("index.ts", "./src"), ("a.b.ts", "./src/a.b"), ("a.d.ts", "./src/a.d.js"),
        ("a.ts", "./src/../src/a.ts")],
      (graphOf x.1 x.2).entryFile? ({} : Options).extensions x.2 = some ("/src/" ++ x.1) ∧
        (graphOf x.1 x.2).relative ("/src/" ++ x.1) = "src/" ++ x.1 ∧
        Target.isFor x.2 ("src/" ++ x.1) = false) ∧
    (ExportsMap.withGraph ⟨[⟨".", [⟨"import", "./src", "/src"⟩]⟩], [], []⟩
      (graphOf "index.ts" "./src")).internalOnly = ["src/index.ts"] := by
  decide +kernel

end Builder

end ModuleAtlas
