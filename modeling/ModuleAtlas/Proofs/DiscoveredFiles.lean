/-
ModuleAtlas/Proofs/DiscoveredFiles.lean

Which files are found, and in which order.

The search goes through a tree folder by folder.  It does not enter a folder whose name is ignored,
and it looks at each file by the path that it was reached on.  Here both are told from the way to
the file, the list of names on it: `Search.Wanted` says of a way whether its file is looked for, and
`Precedes` says of two ways which file comes first.

`exists_lists` is the induction over the tree.  It speaks of ways from any folder that the search
comes to: what is found there are the files below it that are wanted, in order of their ways.  For a
folder, its own files come first, by name, and then the files of its folders, by name, each behind
the name of its folder.  Since no two entries of a folder have one name, the order is strict, and so
no way is listed twice.

Main result: `files_are_wanted_in_order`.
-/
import Mathlib.Tactic.Choose
import ModuleAtlas.Proofs.PackageViews
import ModuleAtlas.Proofs.TreeWays

namespace ModuleAtlas

namespace Discovery

variable {s : Search} {path name : String} {way : List String}

/-! ### The order of ways -/

/-- The file at the first way comes before the one at the second.  Of two files in a folder the
one with the smaller name comes first, both come before the files further down, and those are in
the order of the folders they are in. -/
def Precedes : List String → List String → Prop
  | [a], [b] => a < b
  | [_], _ :: _ :: _ => True
  | a :: x :: v, b :: y :: w => a < b ∨ a = b ∧ Precedes (x :: v) (y :: w)
  | _, _ => False

theorem precedes_deeper {a b : String} {w : List String} (hw : w ≠ []) :
    Precedes [a] (b :: w) := by
  cases w with
  | nil => exact absurd rfl hw
  | cons y w => trivial

theorem precedes_of_lt {a b : String} {v w : List String} (h : a < b) (hv : v ≠ [])
    (hw : w ≠ []) : Precedes (a :: v) (b :: w) := by
  cases v with
  | nil => exact absurd rfl hv
  | cons x v =>
    cases w with
    | nil => exact absurd rfl hw
    | cons y w => exact .inl h

theorem Precedes.cons {a : String} {v w : List String} (h : Precedes v w) (hv : v ≠ [])
    (hw : w ≠ []) : Precedes (a :: v) (a :: w) := by
  cases v with
  | nil => exact absurd rfl hv
  | cons x v =>
    cases w with
    | nil => exact absurd rfl hw
    | cons y w => exact .inr ⟨rfl, h⟩

theorem not_precedes_self (way : List String) : ¬ Precedes way way := by
  induction way with
  | nil => exact id
  | cons a way ih =>
    cases way with
    | nil => exact String.lt_irrefl a
    | cons x way =>
      rintro (h | ⟨-, h⟩)
      · exact String.lt_irrefl a h
      · exact ih h

/-! ### Which files are looked for -/

/-- The file at the end of a way from the root is looked for: in lower case its name ends with one
of the extensions, no name on the way is ignored, and no pattern that is left out matches the
way. -/
structure Search.Wanted (s : Search) (way : List String) : Prop where
  extension : ∃ name ∈ way.getLast?, ∃ e ∈ s.extensions, e.toList <:+ (Text.lower name).toList
  counted : ∀ name ∈ way, name ∉ ignored
  kept : ∀ pattern ∈ s.exclude, Glob.holds pattern (Path.spelled way) = false

/-- The search finds a file at the end of a way from a path it has come to. -/
structure Search.Finds (s : Search) (path : String) (way : List String) : Prop where
  wants : ∃ name ∈ way.getLast?, s.wants name = true
  counted : ∀ name ∈ way, name ∉ ignored
  kept : Glob.anyHolds s.exclude (Path.relative (Path.along path way) s.root) = false

theorem Search.Finds.ne_nil (h : s.Finds path way) : way ≠ [] := by
  rintro rfl
  obtain ⟨name, last, -⟩ := h.wants
  cases last

theorem finds_singleton_iff : s.Finds path [name] ↔ s.takes (Path.join path name) name = true := by
  unfold Search.takes
  simp only [Bool.and_eq_true, Bool.not_eq_true', List.contains_eq_mem, decide_eq_false_iff_not]
  constructor
  · rintro ⟨⟨n, last, wants⟩, counted, kept⟩
    obtain rfl : name = n := Option.some.inj last
    exact ⟨⟨wants, counted name List.mem_cons_self⟩, kept⟩
  · rintro ⟨⟨wants, counted⟩, kept⟩
    refine ⟨⟨name, rfl, wants⟩, ?_, kept⟩
    intro n hn
    rw [List.mem_singleton.1 hn]
    exact counted

theorem finds_cons_iff (some : way ≠ []) :
    s.Finds path (name :: way) ↔ name ∉ ignored ∧ s.Finds (Path.join path name) way := by
  have last : (name :: way).getLast? = way.getLast? := by
    cases way with
    | nil => exact absurd rfl some
    | cons x way => rfl
  constructor
  · rintro ⟨wants, counted, kept⟩
    rw [List.forall_mem_cons] at counted
    exact ⟨counted.1, last ▸ wants, counted.2, kept⟩
  · rintro ⟨first, wants, counted, kept⟩
    exact ⟨last ▸ wants, List.forall_mem_cons.2 ⟨first, counted⟩, kept⟩

/-- From the root, what is found is what is wanted. -/
theorem finds_root_iff (absolute : Path.isAbsolute s.root = true) (h : Path.IsWay way) :
    s.Finds s.root way ↔ s.Wanted way := by
  have wants : ∀ name, s.wants name = true ↔
      ∃ e ∈ s.extensions, e.toList <:+ (Text.lower name).toList := by
    intro name
    simp [Search.wants, Text.endsIn]
  have kept : Glob.anyHolds s.exclude (Path.relative (Path.along s.root way) s.root) = false ↔
      ∀ pattern ∈ s.exclude, Glob.holds pattern (Path.spelled way) = false := by
    rw [Path.relative_along absolute h]
    simp [Glob.anyHolds]
  constructor
  · rintro ⟨⟨name, last, want⟩, counted, keep⟩
    exact ⟨⟨name, last, (wants name).1 want⟩, counted, kept.1 keep⟩
  · rintro ⟨⟨name, last, want⟩, counted, keep⟩
    exact ⟨⟨name, last, (wants name).2 want⟩, counted, kept.2 keep⟩

/-! ### One folder -/

section Folder

variable {entries : List (String × FileTree)}

/-- The names of the files among the entries that are looked for, in order. -/
def ownNames (s : Search) (path : String) (entries : List (String × FileTree)) : List String :=
  (sorted ((entries.filter fun e => e.2.isFile).map Prod.fst)).filter fun name =>
    s.takes (Path.join path name) name

/-- The entry is a folder that the search goes into. -/
def isEntered (e : String × FileTree) : Bool := !(e.2.isFile || ignored.contains e.1)

/-- The folders among the entries that the search goes into, in order. -/
def innerFolders (entries : List (String × FileTree)) : List (String × FileTree) :=
  (entries.filter isEntered).mergeSort fun a b => decide (a.1 ≤ b.1)

theorem foldersIn_eq (s : Search) (path : String) (entries : List (String × FileTree)) :
    foldersIn s path entries = (entries.filter isEntered).map fun e =>
      (e.1, filesBelow s (Path.join path e.1) e.2) := by
  induction entries with
  | nil => rfl
  | cons e rest ih =>
    obtain ⟨name, t⟩ := e
    rw [foldersIn, folderOf, ih]
    split
    · next out =>
      have passed : isEntered (name, t) = false := by rw [isEntered, out]; rfl
      rw [List.filter_cons_of_neg (by simp [passed])]
      rfl
    · next enter =>
      have entered : isEntered (name, t) = true := by
        rw [isEntered, Bool.not_eq_true _ |>.mp enter]
        rfl
      rw [List.filter_cons_of_pos entered]
      rfl

/-- **What is found in a folder**: its own files, then those of its folders. -/
theorem filesBelow_folder (s : Search) (path : String) (entries : List (String × FileTree)) :
    filesBelow s path (.folder entries) = (ownNames s path entries).map (Path.join path) ++
      (innerFolders entries).flatMap fun e => filesBelow s (Path.join path e.1) e.2 := by
  rw [filesBelow, foldersIn_eq]
  congr 1
  -- the folders are sorted by name, with what is found in them or without
  rw [← List.map_mergeSort (r := fun a b => decide (a.1 ≤ b.1)) fun _ _ _ _ => rfl,
    List.flatMap_map]
  rfl

theorem mem_ownNames :
    name ∈ ownNames s path entries ↔
      (∃ t, (name, t) ∈ entries ∧ t.isFile = true) ∧ s.Finds path [name] := by
  unfold ownNames
  rw [List.mem_filter, mem_sorted, finds_singleton_iff]
  simp

theorem mem_innerFolders {e : String × FileTree} :
    e ∈ innerFolders entries ↔ e ∈ entries ∧ e.2.isFile = false ∧ e.1 ∉ ignored := by
  unfold innerFolders
  rw [List.mem_mergeSort, List.mem_filter]
  simp [isEntered]

theorem pairwise_ownNames (once : (entries.map Prod.fst).Nodup) :
    (ownNames s path entries).Pairwise (· < ·) := by
  apply List.Pairwise.filter
  apply pairwise_lt_sorted
  exact once.sublist (List.filter_sublist.map _)

theorem pairwise_innerFolders (once : (entries.map Prod.fst).Nodup) :
    (innerFolders entries).Pairwise fun a b => a.1 < b.1 := by
  have names : (innerFolders entries).map Prod.fst =
      sorted ((entries.filter isEntered).map Prod.fst) :=
    List.map_mergeSort fun _ _ _ _ => rfl
  rw [← List.pairwise_map (f := Prod.fst) (R := (· < ·)), names]
  apply pairwise_lt_sorted
  exact once.sublist (List.filter_sublist.map _)

end Folder

/-! ### All folders -/

/-- The ways are those of the files that are found in the tree at a path, in order. -/
structure Lists (s : Search) (path : String) (t : FileTree) (ways : List (List String)) : Prop where
  files : filesBelow s path t = ways.map (Path.along path)
  order : ways.Pairwise Precedes
  mem : ∀ way, way ∈ ways ↔ t.HoldsFile way ∧ s.Finds path way

theorem lists_file (s : Search) (path : String) (bytes : List UInt8) :
    Lists s path (.file bytes) [] := by
  refine ⟨rfl, .nil, fun way => ⟨nofun, ?_⟩⟩
  rintro ⟨file, finds⟩
  cases file.isFile_eq_false finds.ne_nil

section Folder

variable {entries : List (String × FileTree)} {ways : String × FileTree → List (List String)}

/-- The ways from a folder, if those from its entries are known: to its own files, and then behind
the name of each folder in it. -/
def folderWays (s : Search) (path : String) (entries : List (String × FileTree))
    (ways : String × FileTree → List (List String)) : List (List String) :=
  (ownNames s path entries).map (fun name => [name]) ++
    (innerFolders entries).flatMap fun e => (ways e).map (e.1 :: ·)

theorem pairwise_folderWays (once : (entries.map Prod.fst).Nodup)
    (parts : ∀ e ∈ innerFolders entries, (ways e).Pairwise Precedes)
    (deep : ∀ e ∈ innerFolders entries, ∀ way ∈ ways e, way ≠ []) :
    (folderWays s path entries ways).Pairwise Precedes := by
  unfold folderWays
  rw [List.pairwise_append, List.pairwise_map, List.pairwise_flatMap]
  refine ⟨pairwise_ownNames once, ⟨?_, ?_⟩, ?_⟩
  · -- two files in one of the folders
    intro e he
    rw [List.pairwise_map]
    refine List.Pairwise.imp_of_mem ?_ (parts e he)
    intro v w hv hw before
    exact before.cons (deep e he v hv) (deep e he w hw)
  · -- files in different folders
    refine List.Pairwise.imp_of_mem ?_ (pairwise_innerFolders once)
    intro d e hd he smaller v' hv' w' hw'
    obtain ⟨v, hv, rfl⟩ := List.mem_map.1 hv'
    obtain ⟨w, hw, rfl⟩ := List.mem_map.1 hw'
    exact precedes_of_lt smaller (deep d hd v hv) (deep e he w hw)
  · -- a file of the folder itself and one further down
    intro own hown below hbelow
    obtain ⟨name, -, rfl⟩ := List.mem_map.1 hown
    obtain ⟨e, he, hbelow⟩ := List.mem_flatMap.1 hbelow
    obtain ⟨w, hw, rfl⟩ := List.mem_map.1 hbelow
    exact precedes_deeper (deep e he w hw)

theorem cons_mem_folderWays :
    name :: way ∈ folderWays s path entries ways ↔
      (way = [] ∧ name ∈ ownNames s path entries) ∨
        ∃ t, (name, t) ∈ innerFolders entries ∧ way ∈ ways (name, t) := by
  unfold folderWays
  simp only [List.mem_append, List.mem_map, List.mem_flatMap, List.cons.injEq]
  constructor
  · rintro (⟨n, own, rfl, rfl⟩ | ⟨⟨n, t⟩, inner, w, mem, rfl, rfl⟩)
    · exact .inl ⟨rfl, own⟩
    · exact .inr ⟨t, inner, mem⟩
  · rintro (⟨rfl, own⟩ | ⟨t, inner, mem⟩)
    · exact .inl ⟨name, own, rfl, rfl⟩
    · exact .inr ⟨(name, t), inner, way, mem, rfl, rfl⟩

/-- **One folder of the search.**  What the search does in the entries of a folder tells what it
does in the folder. -/
theorem lists_folder (once : (entries.map Prod.fst).Nodup)
    (parts : ∀ e ∈ entries, Lists s (Path.join path e.1) e.2 (ways e)) :
    Lists s path (.folder entries) (folderWays s path entries ways) := by
  have inner : ∀ e ∈ innerFolders entries, Lists s (Path.join path e.1) e.2 (ways e) :=
    fun e he => parts e (mem_innerFolders.1 he).1
  have deep : ∀ e ∈ innerFolders entries, ∀ way ∈ ways e, way ≠ [] :=
    fun e he way h => (((inner e he).mem way).1 h).2.ne_nil
  refine ⟨?_, pairwise_folderWays once (fun e he => (inner e he).order) deep, ?_⟩
  · unfold folderWays
    rw [filesBelow_folder, List.map_append, List.map_map, List.map_flatMap]
    congr 1
    apply List.flatMap_congr
    intro e he
    rw [(inner e he).files, List.map_map]
    rfl
  · intro way
    cases way with
    | nil =>
      constructor
      · intro h
        simp [folderWays] at h
      · rintro ⟨-, finds⟩
        exact absurd rfl finds.ne_nil
    | cons name way =>
      rw [cons_mem_folderWays, FileTree.holdsFile_cons_iff once]
      by_cases own : way = []
      · -- a file of the folder itself
        subst own
        simp only [FileTree.holdsFile_nil_iff, mem_ownNames, true_and]
        refine or_iff_left ?_
        rintro ⟨t, ht, none⟩
        exact deep _ ht [] none rfl
      · rw [finds_cons_iff own]
        constructor
        · rintro (⟨none, -⟩ | ⟨t, ht, mem⟩)
          · exact absurd none own
          · obtain ⟨listed, -, counted⟩ := mem_innerFolders.1 ht
            obtain ⟨file, finds⟩ := ((inner _ ht).mem way).1 mem
            exact ⟨⟨t, listed, file⟩, counted, finds⟩
        · rintro ⟨⟨t, listed, file⟩, counted, finds⟩
          have ht := mem_innerFolders.2 ⟨listed, file.isFile_eq_false own, counted⟩
          exact .inr ⟨t, ht, ((inner _ ht).mem way).2 ⟨file, finds⟩⟩

end Folder

/-- The search lists the files of a proper tree by their ways, wherever it has come to. -/
theorem exists_lists {t : FileTree} (proper : t.Proper) (s : Search) (path : String) :
    ∃ ways, Lists s path t ways := by
  induction proper generalizing path with
  | file bytes => exact ⟨[], lists_file s path bytes⟩
  | folder once _ _ ih =>
    choose! ways parts using fun e he => ih e he (Path.join path e.1)
    exact ⟨_, lists_folder once parts⟩

/-- **Which files are found, and in which order.**  For a tree as a disk holds it and an absolute
root, the files that are found are given by their ways from the root:
 * no two files are the same, and their ways are in the order of `Precedes`;
 * a way is among them exactly if it leads to a file and that file is wanted;
 * what is asked of a way is what can be asked of its path: the patterns see the path as it looks
   from the root, and a name on the way is ignored exactly if the path is left out for its place. -/
theorem files_are_wanted_in_order {t : FileTree} {s : Search} (proper : t.Proper)
    (absolute : Path.isAbsolute s.root = true) :
    ∃ ways : List (List String),
      files t s = ways.map (Path.along s.root) ∧
      (files t s).Nodup ∧ ways.Pairwise Precedes ∧
      (∀ way, way ∈ ways ↔
        Path.IsWay way ∧ t.hasFile (Path.along s.root way) = true ∧ s.Wanted way) ∧
      ∀ way, Path.IsWay way →
        Path.relative (Path.along s.root way) s.root = Path.spelled way ∧
        isSkipped s.root (Path.along s.root way) = way.any ignored.contains := by
  have seen : ∀ way, Path.IsWay way →
      Path.relative (Path.along s.root way) s.root = Path.spelled way ∧
      isSkipped s.root (Path.along s.root way) = way.any ignored.contains :=
    fun way h => ⟨Path.relative_along absolute h, isSkipped_along absolute h⟩
  cases found : t.find? s.root with
  | none =>
    have none : files t s = [] := by
      unfold files
      rw [found]
    refine ⟨[], none, none ▸ List.nodup_nil, .nil, fun way => ⟨nofun, ?_⟩, seen⟩
    rintro ⟨h, file, -⟩
    obtain ⟨top, here, -⟩ := (FileTree.hasFile_along_iff absolute h.steps).1 file
    rw [found] at here
    cases here
  | some top =>
    have properTop : top.Proper := proper.find? found
    obtain ⟨ways, listed⟩ := exists_lists properTop s s.root
    have files_eq : files t s = ways.map (Path.along s.root) := by
      unfold files
      rw [found]
      exact listed.files
    refine ⟨ways, files_eq, ?_, listed.order, ?_, seen⟩
    · -- different ways lead to different files
      have steps : ∀ way ∈ ways, ∀ name ∈ way, Path.IsStep name.toList :=
        fun way h => ((listed.mem way).1 h).1.steps properTop
      rw [files_eq]
      refine List.pairwise_map.2 (List.Pairwise.imp_of_mem ?_ listed.order)
      intro v w hv hw before same
      have equal : v = w := Path.along_injective absolute (steps v hv) (steps w hw) same
      exact not_precedes_self w (equal ▸ before)
    · intro way
      rw [listed.mem]
      constructor
      · rintro ⟨file, finds⟩
        have h : Path.IsWay way := ⟨finds.ne_nil, file.steps properTop⟩
        exact ⟨h, (FileTree.hasFile_along_iff absolute h.steps).2 ⟨top, found, file⟩,
          (finds_root_iff absolute h).1 finds⟩
      · rintro ⟨h, file, wanted⟩
        obtain ⟨top', found', file⟩ := (FileTree.hasFile_along_iff absolute h.steps).1 file
        rw [found] at found'
        obtain rfl := Option.some.inj found'
        exact ⟨file, (finds_root_iff absolute h).2 wanted⟩

/-- A folder with a source and its test, one that is ignored, and a file beside them. -/
def smallProject : FileTree :=
  (((FileTree.empty.write "/src/a.ts" []).write "/src/a.test.ts" []).write "/dist/a.ts" []).write
    "/main.TS" []

/-- The search for its sources without the tests. -/
def smallSearch : Search := ⟨"/", [".ts"], ["**/*.test.*"]⟩

theorem proper_smallProject : smallProject.Proper := by
  have write : ∀ {t : FileTree} (path : String), t.Proper → Path.isAbsolute path = true →
      (t.write path []).Proper := fun path proper absolute => (proper.change absolute).1 []
  unfold smallProject
  apply write "/main.TS" _ (by decide)
  apply write "/dist/a.ts" _ (by decide)
  apply write "/src/a.test.ts" _ (by decide)
  exact write "/src/a.ts" FileTree.proper_empty (by decide)

theorem files_are_wanted_in_order_small :
    ∃ ways : List (List String), files smallProject smallSearch = ways.map (Path.along "/") ∧
      ["main.TS"] ∈ ways ∧ ["src", "a.ts"] ∈ ways ∧
      ["src", "a.test.ts"] ∉ ways ∧ ["dist", "a.ts"] ∉ ways := by
  obtain ⟨ways, eq, -, -, mem, -⟩ :=
    files_are_wanted_in_order proper_smallProject (s := smallSearch) (by decide +kernel)
  refine ⟨ways, eq, ?_, ?_, ?_, ?_⟩
  · refine (mem _).2 ⟨by decide, by decide +kernel, ?_⟩
    exact ⟨⟨_, rfl, ".ts", by decide, by decide +kernel⟩, by decide, by decide +kernel⟩
  · refine (mem _).2 ⟨by decide, by decide +kernel, ?_⟩
    exact ⟨⟨_, rfl, ".ts", by decide, by decide +kernel⟩, by decide, by decide +kernel⟩
  · intro h
    have kept := ((mem _).1 h).2.2.kept "**/*.test.*" (by decide)
    exact absurd kept (by decide +kernel)
  · intro h
    exact ((mem _).1 h).2.2.counted "dist" (by decide) (by decide)

end Discovery

end ModuleAtlas
