/-
ModuleAtlas/Proofs/SettingsExclusion.lean

What the compiler's settings leave out.

The settings list entries as seen from their own folder, and each entry becomes two patterns as
seen from the root: the entry as it is written there, and all below it.  An entry may start with a
step that stays and end with slashes.  What it names is what is left without them (`named`), and for
an entry without stars, marks and brackets both patterns together match that place and what lies
below it (`anyHolds_entry_iff`): the slashes at the end of the first pattern only ask for less, and
the second one is made without them.

A search leaves out what any of its patterns matches, so with one more entry in the settings it
finds the same files but those at that place or below it.

Main result: `found_iff_not_within`.
-/
import ModuleAtlas.Graph.Build
import ModuleAtlas.Proofs.LiteralPattern
import ModuleAtlas.Proofs.TestFiles

namespace ModuleAtlas

namespace Path

/-- The path is the place or lies below it. -/
def Within (place path : List Char) : Prop := path = place ∨ place ++ ['/'] <+: path

instance (place path : List Char) : Decidable (Within place path) :=
  inferInstanceAs (Decidable (_ ∨ _))

variable {a b cs : List Char}

/-! ### Slashes at the end -/

theorem exists_trimSlashes (cs : List Char) : ∃ n, cs = trimSlashes cs ++ List.replicate n '/' := by
  refine ⟨(cs.reverse.takeWhile (· == '/')).length, ?_⟩
  have slashes : cs.reverse.takeWhile (· == '/') =
      List.replicate (cs.reverse.takeWhile (· == '/')).length '/' := by
    rw [List.eq_replicate_length]
    intro c hc
    simpa using List.all_eq_true.1 List.all_takeWhile c hc
  apply List.reverse_injective
  unfold trimSlashes
  rw [List.reverse_append, List.reverse_replicate, ← slashes, List.reverse_reverse,
    List.takeWhile_append_dropWhile]

/-- The slashes at the end of a text are those at the end of its last part, unless there is nothing
else in that. -/
theorem trimSlashes_append (full : trimSlashes b ≠ []) (a : List Char) :
    trimSlashes (a ++ b) = a ++ trimSlashes b := by
  unfold trimSlashes at full ⊢
  rw [Ne, List.reverse_eq_nil_iff, ← List.isEmpty_iff] at full
  rw [List.reverse_append, List.dropWhile_append, if_neg full, List.reverse_append,
    List.reverse_reverse]

/-- Slashes behind a place lead to nothing but the place itself or below it. -/
theorem within_append_replicate (place : List Char) (n : Nat) :
    Within place (place ++ List.replicate n '/') := by
  cases n with
  | zero => exact .inl (List.append_nil place)
  | succ n => exact .inr ⟨List.replicate n '/', by rw [List.append_assoc]; rfl⟩

theorem ofWay_ne_nil {parts : List (List Char)} (full : ∀ p ∈ parts, p ≠ []) :
    ofWay parts ≠ [] := by
  cases parts with
  | nil => decide
  | cons p ps =>
    obtain ⟨v, eq, -⟩ := Text.joinWith_cons_cases '/' p ps
    show Text.joinWith ['/'] (p :: ps) ≠ []
    rw [eq]
    exact List.append_ne_nil_of_left_ne_nil (full p List.mem_cons_self) v

/-- No path looks empty from a folder. -/
theorem relative_ne_empty (target start : String) : relative target start ≠ "" := by
  have full : ∀ p ∈ way (steps start) (steps target), p ≠ [] := by
    intro p hp
    rcases mem_way hp with rfl | hp
    · decide
    · simpa using (List.mem_filter.1 hp).2
  have eq : relative target start =
      slashed (String.ofList (ofWay (way (steps start) (steps target)))) := rfl
  intro empty
  have none := congrArg String.toList (eq.symm.trans empty)
  unfold slashed at none
  rw [String.toList_ofList, String.toList_ofList] at none
  exact ofWay_ne_nil full (List.map_eq_nil_iff.1 none)

end Path

namespace Exclusion

open ModuleAtlas.Path (Within)

variable {folder entry path : String}

/-! ### What an entry names -/

/-- The text without a step in front that stays. -/
def withoutStep : List Char → List Char
  | '.' :: '/' :: rest => rest
  | cs => cs

/-- What an entry names: what is left of it without a step in front that stays, and without
slashes at its end. -/
def named (entry : String) : List Char := Path.trimSlashes (withoutStep entry.toList)

/-- The place of something in a folder, as seen from the root. -/
def placeIn (folder : String) (cs : List Char) : List Char :=
  if folder = "." then cs else folder.toList ++ '/' :: cs

theorem placeIn_append (folder : String) (a b : List Char) :
    placeIn folder (a ++ b) = placeIn folder a ++ b := by
  unfold placeIn
  split
  · rfl
  · rw [List.append_assoc, List.cons_append]

theorem toList_seenFrom (seen : folder ≠ "") (entry : String) :
    (seenFrom folder entry).toList = placeIn folder (withoutStep entry.toList) := by
  have own : (if Text.startsIn entry "./" then String.ofList (entry.toList.drop 2) else entry) =
      String.ofList (withoutStep entry.toList) := by
    unfold Text.startsIn withoutStep
    split
    · next starts =>
      obtain ⟨rest, eq⟩ := List.isPrefixOf_iff_prefix.1 starts
      rw [← eq]
      rfl
    · next starts =>
      split
      · next rest eq =>
        refine absurd (List.isPrefixOf_iff_prefix.2 ?_) starts
        rw [eq]
        exact ⟨rest, rfl⟩
      · rw [String.ofList_toList]
  unfold seenFrom placeIn
  rw [own]
  by_cases root : folder = "."
  · simp [root]
  · simp [root, seen]

theorem trimSlashes_placeIn {cs : List Char} (full : Path.trimSlashes cs ≠ []) (folder : String) :
    Path.trimSlashes (placeIn folder cs) = placeIn folder (Path.trimSlashes cs) := by
  have split : ∀ ds, placeIn folder ds = placeIn folder [] ++ ds :=
    fun ds => placeIn_append folder [] ds
  rw [split cs, split (Path.trimSlashes cs), Path.trimSlashes_append full]

theorem isLiteral_seenFrom (seen : folder ≠ "") (literal : Glob.IsLiteral folder.toList)
    (literal' : Glob.IsLiteral entry.toList) : Glob.IsLiteral (seenFrom folder entry).toList := by
  have within : ∀ c ∈ withoutStep entry.toList, c ∈ entry.toList := by
    intro c hc
    unfold withoutStep at hc
    split at hc
    · next rest eq =>
      rw [eq]
      exact List.mem_cons_of_mem _ (List.mem_cons_of_mem _ hc)
    · exact hc
  have own : Glob.IsLiteral (withoutStep entry.toList) := fun c hc => literal' c (within c hc)
  rw [toList_seenFrom seen]
  unfold placeIn
  split
  · exact own
  · refine literal.append fun c hc => ?_
    rcases List.mem_cons.1 hc with rfl | hc
    · decide
    · exact own c hc

/-- A literal pattern comes with the one of all below it. -/
theorem withBelow_of_isLiteral {pattern : String} (literal : Glob.IsLiteral pattern.toList) :
    withBelow pattern =
      [pattern, String.ofList (Path.trimSlashes pattern.toList ++ ['/', '*', '*'])] := by
  have open' : Text.endsIn pattern "/**" = false := by
    rw [Bool.eq_false_iff]
    intro ends
    have suffix := List.isSuffixOf_iff_suffix.1 ends
    exact literal.notMem (by decide) (suffix.mem (by decide : '*' ∈ "/**".toList))
  unfold withBelow
  rw [open', if_neg Bool.false_ne_true, String.ofList_append]

/-- **What the patterns of an entry match**: the place that it names, and what lies below. -/
theorem anyHolds_entry_iff (seen : folder ≠ "") (literal : Glob.IsLiteral folder.toList)
    (literal' : Glob.IsLiteral entry.toList) (some : named entry ≠ [])
    (line : '\n' ∉ path.toList) :
    Glob.anyHolds (withBelow (seenFrom folder entry)) path = true ↔
      Within (placeIn folder (named entry)) (Path.slashed path).toList := by
  have whole := isLiteral_seenFrom seen literal literal'
  obtain ⟨n, slashes⟩ := Path.exists_trimSlashes (withoutStep entry.toList)
  have first : (seenFrom folder entry).toList =
      placeIn folder (named entry) ++ List.replicate n '/' := by
    rw [toList_seenFrom seen, slashes, placeIn_append]
    rfl
  have trimmed : Path.trimSlashes (seenFrom folder entry).toList =
      placeIn folder (named entry) := by
    rw [toList_seenFrom seen, trimSlashes_placeIn some]
    rfl
  have literalPlace : Glob.IsLiteral (placeIn folder (named entry)) := by
    intro c hc
    apply whole c
    rw [first]
    exact List.mem_append_left _ hc
  have second := Glob.holds_below_iff literalPlace line
  rw [withBelow_of_isLiteral whole, trimmed]
  unfold Glob.anyHolds
  rw [List.any_cons, List.any_cons, List.any_nil, Bool.or_false, Bool.or_eq_true, second]
  refine or_iff_right_of_imp fun hit => ?_
  -- what the first pattern matches lies where the second one leads
  have full : (seenFrom folder entry).toList ≠ [] := by
    intro none
    rw [none] at trimmed
    have empty : placeIn folder (named entry) = placeIn folder [] ++ named entry :=
      placeIn_append folder [] (named entry)
    exact some (List.append_eq_nil_iff.1 (empty.symm.trans trimmed.symm)).2
  have literally := (Glob.holds_literal_iff whole full line).1 (by rwa [String.ofList_toList])
  rw [literally, first]
  exact Path.within_append_replicate _ n

/-! ### What is found without an entry -/

/-- The patterns of all that is left out, where settings in a folder list the given entries. -/
def patternsWith (options : Options) (folder : String) (entries : List String) : List String :=
  options.exclude ++ (if options.includeTests then [] else testPatterns) ++
    entries.flatMap fun entry => withBelow (seenFrom folder entry)

variable {t : FileTree} {root : String} {options : Options} {settings : Json}
  {before after : List String}

/-- The folder of the settings, as seen from the root. -/
def settingsFolder (root : String) (options : Options) : String :=
  Path.relative (Path.folder (settingsPath root options)) root

theorem patterns_eq (file : t.hasFile (settingsPath root options) = true)
    (read : t.readData (settingsPath root options) = .ok settings) :
    (patterns t root options).1 =
      patternsWith options (settingsFolder root options) (listed settings) := by
  unfold patterns ofSettings
  dsimp only
  rw [if_pos file, read]
  rfl

theorem anyHolds_patternsWith (options : Options) (folder : String) (before after : List String)
    (entry path : String) :
    Glob.anyHolds (patternsWith options folder (before ++ entry :: after)) path =
      (Glob.anyHolds (patternsWith options folder (before ++ after)) path ||
        Glob.anyHolds (withBelow (seenFrom folder entry)) path) := by
  unfold Glob.anyHolds patternsWith
  simp only [List.any_append, List.flatMap_append, List.flatMap_cons]
  ac_rfl

/-- One more entry leaves out what its patterns match, and nothing else. -/
theorem files_patternsWith (t : FileTree) (root : String) (extensions : List String)
    (options : Options) (folder : String) (before after : List String) (entry : String) :
    Discovery.files t ⟨root, extensions, patternsWith options folder (before ++ entry :: after)⟩ =
      (Discovery.files t
        ⟨root, extensions, patternsWith options folder (before ++ after)⟩).filter fun path =>
          !Glob.anyHolds (withBelow (seenFrom folder entry)) (Path.relative path root) := by
  apply Discovery.files_filter
  · rfl
  · intro path name
    unfold Discovery.Search.takes Discovery.Search.wants
    dsimp only
    rw [anyHolds_patternsWith, Bool.not_or, ← Bool.and_assoc]

/-- The search of a builder is that for the files that its settings leave. -/
theorem search_make (file : t.hasFile (settingsPath root options) = true)
    (read : t.readData (settingsPath root options) = .ok settings) :
    (Builder.make t root options).1.search = ⟨root, options.extensions,
      patternsWith options (settingsFolder root options) (listed settings)⟩ := by
  rw [← patterns_eq file read]
  rfl

/-- **What an entry of the settings leaves out.**  For settings that list a literal entry, in a
folder whose path is literal as well, the patterns of the entry match a path of one line exactly if
it is at the place that the entry names in the folder or below it.  So, whatever the tree is by
then, a builder finds a file exactly if it would find the file without that entry and the file is
not there. -/
theorem found_iff_not_within (file : t.hasFile (settingsPath root options) = true)
    (read : t.readData (settingsPath root options) = .ok settings)
    (entries : listed settings = before ++ entry :: after)
    (literal : Glob.IsLiteral (settingsFolder root options).toList)
    (literal' : Glob.IsLiteral entry.toList) (some : named entry ≠ [])
    (line : '\n' ∉ (Path.relative path root).toList) (t' : FileTree) :
    (Glob.anyHolds (withBelow (seenFrom (settingsFolder root options) entry))
        (Path.relative path root) = true ↔
      Within (placeIn (settingsFolder root options) (named entry))
        (Path.relative path root).toList) ∧
    (path ∈ Discovery.files t' (Builder.make t root options).1.search ↔
      path ∈ Discovery.files t' ⟨root, options.extensions,
        patternsWith options (settingsFolder root options) (before ++ after)⟩ ∧
      ¬ Within (placeIn (settingsFolder root options) (named entry))
        (Path.relative path root).toList) := by
  have seen : settingsFolder root options ≠ "" := Path.relative_ne_empty _ root
  have matched := anyHolds_entry_iff seen literal literal' some line
  rw [Path.slashed_relative] at matched
  refine ⟨matched, ?_⟩
  rw [search_make file read, entries, files_patternsWith, List.mem_filter]
  refine and_congr_right fun _ => ?_
  rw [← matched, Bool.not_eq_true, Bool.not_eq_true']

/-- A package with settings that leave out one of its folders. -/
def packageWithSettings : FileTree :=
  .folder [("pkg", .folder
    [("tsconfig.json", .file "\x7b\"exclude\": [\"./gen//\"]\x7d".toUTF8.toList),
     ("gen", .folder [("a.ts", .file [])])])]

/-- The settings are those of the package. -/
def packageOptions : Options := { tsconfig := some "pkg/tsconfig.json" }

/-- A file in the folder that the entry names is not found, and a file beside it whose name only
starts as that of the folder is not matched. -/
theorem found_iff_not_within_package :
    "/pkg/gen/a.ts" ∉ Discovery.files packageWithSettings
        (Builder.make packageWithSettings "/" packageOptions).1.search ∧
      Glob.anyHolds (withBelow (seenFrom (settingsFolder "/" packageOptions) "./gen//"))
        (Path.relative "/pkg/generated.ts" "/") = false := by
  have file : packageWithSettings.hasFile (settingsPath "/" packageOptions) = true := by
    decide +kernel
  have data : (packageWithSettings.readData (settingsPath "/" packageOptions)).toOption.map listed =
      some ([] ++ "./gen//" :: []) := by
    decide +kernel
  obtain ⟨settings, found, entries⟩ := Option.map_eq_some_iff.1 data
  have read : packageWithSettings.readData (settingsPath "/" packageOptions) = .ok settings := by
    cases outcome : packageWithSettings.readData (settingsPath "/" packageOptions) with
    | error fault =>
      rw [outcome] at found
      cases found
    | ok value =>
      rw [outcome] at found
      rw [Option.some.inj found]
  have literal : Glob.IsLiteral (settingsFolder "/" packageOptions).toList := by decide +kernel
  have literal' : Glob.IsLiteral "./gen//".toList := by decide
  have some : named "./gen//" ≠ [] := by decide
  have line : '\n' ∉ (Path.relative "/pkg/gen/a.ts" "/").toList := by decide +kernel
  have line' : '\n' ∉ (Path.relative "/pkg/generated.ts" "/").toList := by decide +kernel
  have inside := (found_iff_not_within file read entries literal literal' some line
    packageWithSettings).2
  have beside := (found_iff_not_within file read entries literal literal' some line'
    packageWithSettings).1
  constructor
  · intro here
    exact (inside.1 here).2 (by decide +kernel)
  · rw [Bool.eq_false_iff]
    intro hit
    exact absurd (beside.1 hit) (by decide +kernel)

end Exclusion

end ModuleAtlas
