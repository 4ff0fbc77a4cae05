/-
ModuleAtlas/Proofs/TestFiles.lean

The files of tests, by patterns and by roles.

Patterns decide which files are found, and words in paths decide which role a file plays.
Every path that a pattern of tests matches holds one of the words that make a file a test:
what a pattern spells out stands in each path it matches (`infix_of_holds`), and lower case
leaves such a word as it is (`infix_lower`).  So a file that is left out as a test would not
go into production if it were found, unless it is an entry (`isAside_of_isTest`).

To leave out more is to find fewer files, and those that are still found are found in the same
order: `files_filter`.
-/
import Mathlib.Data.List.Infix
import ModuleAtlas.Graph.Discovery
import ModuleAtlas.Graph.Exclusion
import ModuleAtlas.Role

namespace ModuleAtlas

/-! ### Words in texts -/

namespace Text

variable {part s : List Char}

theorem holds_iff_isInfix : holds part s = true ↔ part <:+: s := by
  induction s with
  | nil => simp [holds]
  | cons c rest ih =>
    rw [holds, Bool.or_eq_true, List.isPrefixOf_iff_prefix, ih, List.infix_cons_iff]

/-- A character that is the same in lower case, whatever stands around it. -/
def IsLow (c : Char) : Prop := c.toNat < 128 ∧ c.toLower = c

instance (c : Char) : Decidable (IsLow c) := inferInstanceAs (Decidable (_ ∧ _))

theorem lowerAfter_cons_of_isLow {c : Char} (low : IsLow c) (before rest : List Char) :
    lowerAfter before (c :: rest) = c :: lowerAfter (c :: before) rest := by
  have notDotted : (c == '\u0130') = false := by
    rw [beq_eq_false_iff_ne]
    rintro rfl
    exact absurd low.1 (by decide)
  have notSigma : (c == '\u03A3') = false := by
    rw [beq_eq_false_iff_ne]
    rintro rfl
    exact absurd low.1 (by decide)
  have same : lowerChar c = c := by
    rw [lowerChar, if_pos low.1, low.2]
  simp [lowerAfter, notDotted, notSigma, same]

theorem isPrefix_lowerAfter (low : ∀ c ∈ part, IsLow c) (h : part <+: s) (before : List Char) :
    part <+: lowerAfter before s := by
  obtain ⟨rest, rfl⟩ := h
  induction part generalizing before with
  | nil => exact List.nil_prefix
  | cons c part ih =>
    rw [List.cons_append, lowerAfter_cons_of_isLow (low c List.mem_cons_self)]
    rw [List.prefix_cons_inj]
    exact ih (fun d hd => low d (List.mem_cons_of_mem c hd)) (c :: before)

theorem infix_lowerAfter (low : ∀ c ∈ part, IsLow c) (h : part <:+: s) (before : List Char) :
    part <:+: lowerAfter before s := by
  induction s generalizing before with
  | nil => exact h
  | cons c rest ih =>
    rcases List.infix_cons_iff.1 h with here | later
    · exact (isPrefix_lowerAfter low here before).isInfix
    · exact (ih later (c :: before)).trans (List.suffix_append _ _).isInfix

/-- **Lower case keeps low words.** -/
theorem infix_lower {word text : String} (low : ∀ c ∈ word.toList, IsLow c)
    (h : word.toList <:+: text.toList) : word.toList <:+: (lower text).toList := by
  rw [lower, String.toList_ofList]
  exact infix_lowerAfter low h []

end Text

/-! ### Words in patterns -/

namespace Glob

variable {s r : List Char}

theorem isSuffix_of_mem_afterOne {p : Char → Bool} (h : r ∈ afterOne p s) : r <:+ s := by
  cases s with
  | nil => cases h
  | cons c rest =>
    rw [afterOne] at h
    split at h
    · obtain rfl := List.mem_singleton.1 h
      exact List.suffix_cons c r
    · cases h

theorem isSuffix_of_mem_afterWhile {p : Char → Bool} (h : r ∈ afterWhile p s) : r <:+ s := by
  induction s with
  | nil =>
    obtain rfl := List.mem_singleton.1 h
    exact List.suffix_rfl
  | cons c rest ih =>
    rw [afterWhile] at h
    rcases List.mem_cons.1 h with rfl | h
    · exact List.suffix_rfl
    · split at h
      · exact (ih h).trans (List.suffix_cons c rest)
      · cases h

theorem isSuffix_of_mem_afterSlash (h : r ∈ afterSlash s) : r <:+ s := by
  induction s with
  | nil => cases h
  | cons c rest ih =>
    rw [afterSlash] at h
    split at h
    · cases h
    · split at h
      · rcases List.mem_cons.1 h with rfl | h
        · exact List.suffix_cons c r
        · exact (ih h).trans (List.suffix_cons c rest)
      · exact (ih h).trans (List.suffix_cons c rest)

/-- An atom takes its piece from the front. -/
theorem isSuffix_of_mem_rests {a : Atom} (h : r ∈ a.rests s) : r <:+ s := by
  cases a with
  | exactly c => exact isSuffix_of_mem_afterOne h
  | one => exact isSuffix_of_mem_afterOne h
  | run => exact isSuffix_of_mem_afterWhile h
  | tree => exact isSuffix_of_mem_afterWhile h
  | folders =>
    rcases List.mem_cons.1 h with rfl | h
    · exact List.suffix_rfl
    · exact isSuffix_of_mem_afterSlash h
  | below =>
    rcases List.mem_cons.1 h with rfl | h
    · exact List.suffix_rfl
    · obtain ⟨u, hu, hr⟩ := List.mem_flatMap.1 h
      exact (isSuffix_of_mem_afterWhile hr).trans (isSuffix_of_mem_afterOne hu)
  | member set => exact isSuffix_of_mem_afterOne h
  | members set => exact isSuffix_of_mem_afterWhile h

/-- The atoms behind others fit what those leave. -/
theorem exists_isSuffix_of_fits {before after : List Atom} (h : fits (before ++ after) s = true) :
    ∃ r, r <:+ s ∧ fits after r = true := by
  induction before generalizing s with
  | nil => exact ⟨s, List.suffix_rfl, h⟩
  | cons a before ih =>
    obtain ⟨u, hu, fit⟩ := List.any_eq_true.1 h
    obtain ⟨r, hr, fit⟩ := ih fit
    exact ⟨r, hr.trans (isSuffix_of_mem_rests hu), fit⟩

theorem isPrefix_of_fits {word : List Char} {after : List Atom}
    (h : fits (word.map .exactly ++ after) s = true) : word <+: s := by
  induction word generalizing s with
  | nil => exact List.nil_prefix
  | cons c word ih =>
    obtain ⟨u, hu, fit⟩ := List.any_eq_true.1 h
    cases s with
    | nil => cases hu
    | cons d rest =>
      simp only [Atom.rests, afterOne, beq_iff_eq] at hu
      split at hu
      · next same =>
        obtain rfl := List.mem_singleton.1 hu
        rw [same, List.prefix_cons_inj]
        exact ih fit
      · cases hu

/-- **A path holds what its pattern spells out.** -/
theorem infix_of_holds {pattern path : String} {word : List Char} {before after : List Atom}
    (compiled : compile pattern = some (before ++ (word.map .exactly ++ after)))
    (h : holds pattern path = true) : word <:+: (Path.slashed path).toList := by
  unfold holds at h
  rw [compiled] at h
  obtain ⟨r, suffix, fit⟩ := exists_isSuffix_of_fits h
  exact (isPrefix_of_fits fit).isInfix.trans suffix.isInfix

end Glob

/-! ### Roles -/

/-- A pattern of tests matches the path. -/
def Exclusion.isTest (relative : String) : Bool := Glob.anyHolds testPatterns relative

theorem Exclusion.exists_word_of_isTest {relative : String} (h : isTest relative = true) :
    ∃ word ∈ [".test.", ".spec.", "__tests__"],
      word.toList <:+: (Path.slashed relative).toList := by
  have test : Glob.compile "**/*.test.*"
      = some ([.folders, .run] ++ (".test.".toList.map .exactly ++ [.run])) := by decide
  have spec : Glob.compile "**/*.spec.*"
      = some ([.folders, .run] ++ (".spec.".toList.map .exactly ++ [.run])) := by decide
  have folder : Glob.compile "**/__tests__/**"
      = some ([.folders] ++ ("__tests__".toList.map .exactly ++ [.below])) := by decide
  obtain ⟨pattern, mem, holds⟩ := List.any_eq_true.1 h
  simp only [testPatterns, List.mem_cons, List.not_mem_nil, or_false] at mem
  rcases mem with rfl | rfl | rfl
  · exact ⟨".test.", by simp, Glob.infix_of_holds test holds⟩
  · exact ⟨".spec.", by simp, Glob.infix_of_holds spec holds⟩
  · exact ⟨"__tests__", by simp, Glob.infix_of_holds folder holds⟩

theorem Path.slashed_slashed (s : String) : slashed (slashed s) = slashed s := by
  unfold slashed
  rw [String.toList_ofList, List.map_map]
  refine congrArg String.ofList (List.map_congr_left fun c _ => ?_)
  by_cases back : c = '\\' <;> simp [back]

theorem Path.slashed_relative (target start : String) :
    slashed (relative target start) = relative target start := by
  unfold relative
  rw [slashed_slashed]

namespace Role

/-- A file that is no entry stays out of production if it configures something or is a test. -/
theorem isAside_ofFile_false (relative : String) (exports : List Export) :
    (ofFile relative exports false).isAside =
      (hasAny (Path.name ("/" ++ Text.lower relative)) [".config.", "rc."]
        || configNames.contains (Path.name ("/" ++ Text.lower relative))
        || hasAny ("/" ++ Text.lower relative)
          [".test.", ".spec.", "__tests__", "/test/", "/tests/"]) := by
  unfold ofFile
  dsimp only
  rw [if_neg Bool.false_ne_true]
  cases hasAny (Path.name ("/" ++ Text.lower relative)) [".config.", "rc."]
      || configNames.contains (Path.name ("/" ++ Text.lower relative)) with
  | true => rfl
  | false =>
    cases hasAny ("/" ++ Text.lower relative)
        [".test.", ".spec.", "__tests__", "/test/", "/tests/"] with
    | true => rfl
    | false =>
      -- what is left are roles that go into production, whatever the exports say
      simp only [Bool.false_eq_true, if_false, apply_ite isAside]
      simp [isAside]

/-- Whether a file stays out of production is a matter of its path, unless it is an entry. -/
theorem isAside_ofFile (relative : String) (exports : List Export) (isEntry : Bool) :
    (ofFile relative exports isEntry).isAside =
      (!isEntry && (ofFile relative [] false).isAside) := by
  cases isEntry with
  | true => rfl
  | false => rw [isAside_ofFile_false, isAside_ofFile_false, Bool.not_false, Bool.true_and]

/-- **Tests stay out of production**, unless they are entries. -/
theorem isAside_of_isTest {relative : String} (slashes : Path.slashed relative = relative)
    (h : Exclusion.isTest relative = true) : (ofFile relative [] false).isAside = true := by
  obtain ⟨word, mem, within⟩ := Exclusion.exists_word_of_isTest h
  rw [slashes] at within
  have words : ∀ word ∈ [".test.", ".spec.", "__tests__"],
      (word.toList.all fun c => decide (Text.IsLow c)) = true := by decide
  have low : ∀ c ∈ word.toList, Text.IsLow c := by
    simpa only [List.all_eq_true, decide_eq_true_eq] using words word mem
  have marked : hasAny ("/" ++ Text.lower relative)
      [".test.", ".spec.", "__tests__", "/test/", "/tests/"] = true := by
    refine List.any_eq_true.2 ⟨word, List.mem_append_left ["/test/", "/tests/"] mem, ?_⟩
    unfold Text.has
    rw [Text.holds_iff_isInfix, String.toList_append]
    exact (Text.infix_lower low within).trans (List.suffix_append _ _).isInfix
  rw [isAside_ofFile_false, marked, Bool.or_true]

end Role

/-! ### Files that are found -/

namespace Discovery

variable {s s' : Search} {keep : String → Bool}

/-- Of the files in a folder, those are found with more left out that are still wanted. -/
theorem filesIn_filter
    (takes : ∀ path name, s'.takes path name = (s.takes path name && keep path))
    (folder : String) (entries : List (String × FileTree)) :
    filesIn s' folder entries = (filesIn s folder entries).filter keep := by
  unfold filesIn
  dsimp only
  rw [List.filter_map, List.filter_filter]
  refine congrArg (List.map _) (List.filter_congr fun name _ => ?_)
  rw [takes, Bool.and_comm]
  rfl

mutual

theorem filesBelow_filter
    (takes : ∀ path name, s'.takes path name = (s.takes path name && keep path)) (path : String) :
    ∀ t : FileTree, filesBelow s' path t = (filesBelow s path t).filter keep
  | .file _ => by simp [filesBelow]
  | .folder entries => by
    rw [filesBelow, filesBelow, List.filter_append, filesIn_filter takes,
      foldersIn_filter takes path entries]
    congr 1
    -- the folders are sorted by name, and the names stay
    rw [← List.map_mergeSort (r := fun a b => decide (a.1 ≤ b.1)) fun _ _ _ _ => rfl,
      List.flatMap_map, List.filter_flatMap]

theorem foldersIn_filter
    (takes : ∀ path name, s'.takes path name = (s.takes path name && keep path)) (path : String) :
    ∀ entries : List (String × FileTree), foldersIn s' path entries
      = (foldersIn s path entries).map fun f => (f.1, f.2.filter keep)
  | [] => by simp [foldersIn]
  | e :: rest => by
    rw [foldersIn, foldersIn, List.map_append, folderOf_filter takes path e,
      foldersIn_filter takes path rest]

theorem folderOf_filter
    (takes : ∀ path name, s'.takes path name = (s.takes path name && keep path)) (path : String) :
    ∀ e : String × FileTree, folderOf s' path e
      = (folderOf s path e).map fun f => (f.1, f.2.filter keep)
  | (name, t) => by
    rw [folderOf, folderOf]
    rw [filesBelow_filter takes (Path.join path name) t]
    split <;> rfl

end

/-- **To leave out more is to find fewer files**, in the same order. -/
theorem files_filter (root : s'.root = s.root)
    (takes : ∀ path name, s'.takes path name = (s.takes path name && keep path)) (t : FileTree) :
    files t s' = (files t s).filter keep := by
  unfold files
  rw [root]
  cases t.find? s.root with
  | none => rfl
  | some tree => exact filesBelow_filter takes s.root tree

end Discovery

end ModuleAtlas
