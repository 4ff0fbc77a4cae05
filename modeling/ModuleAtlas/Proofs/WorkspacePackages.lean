/-
ModuleAtlas/Proofs/WorkspacePackages.lean

The packages of a project that has several.

A workspace is named by a path from the root, by itself or with a star behind it
(`Manifest.Workspace`).  The search drops the star and what is behind it and looks into the folder
that is left, so that the two forms do the same: the packages are the folders right in the folder of
the path that hold a manifest.  A path without a star therefore does not name a package itself
(`literal_is_no_package`).

Manifests are listed by the texts of their paths, each text once.  A path keeps the segments that
step back, so that one manifest may have two texts.  Where no workspace steps back, the folder of
a workspace goes straight down from the root (`steps_folder`), and then each manifest has one text.

Main result: `files_are_packages`.
-/
import Mathlib.Data.List.Induction
import Mathlib.Data.List.Nodup
import Mathlib.Data.List.TakeWhile
import Mathlib.Tactic.Choose
import ModuleAtlas.Manifest.Workspace
import ModuleAtlas.Proofs.PackageViews
import ModuleAtlas.Proofs.TreeWays

namespace ModuleAtlas

namespace Path

variable {root path : String}

/-! ### Plain paths -/

/-- A plain path is made of the slashes in front and of the segments that are no mere repetition. -/
theorem plain_congr (slashes : leadingSlashes root.toList = leadingSlashes path.toList)
    (same : moving root = moving path) : plain root = plain path := by
  unfold plain
  unfold moving at same
  dsimp only
  rw [slashes, same]

theorem toList_plain (absolute : isAbsolute root = true) :
    (plain root).toList = List.replicate (leadingSlashes root.toList) '/' ++
      ofSegments (moving root) := by
  have front := leadingSlashes_pos absolute
  unfold plain moving
  dsimp only
  rw [if_neg, String.toList_ofList]
  cases n : leadingSlashes root.toList with
  | zero => omega
  | succ n => simp [List.replicate_succ]

theorem isAbsolute_plain (absolute : isAbsolute root = true) : isAbsolute (plain root) = true := by
  have front := leadingSlashes_pos absolute
  unfold isAbsolute
  rw [toList_plain absolute]
  cases n : leadingSlashes root.toList with
  | zero => omega
  | succ n => rfl

theorem mem_moving {p : List Char} :
    p ∈ moving root ↔ p ∈ segments root.toList ∧ p ≠ [] ∧ p ≠ here := by
  unfold moving
  simp

theorem moving_plain (absolute : isAbsolute root = true) : moving (plain root) = moving root := by
  rw [moving_eq_filter, toList_plain absolute, filter_segments_ofSegments]
  · exact List.filter_eq_self.2 fun p hp => decide_eq_true (mem_moving.1 hp).2.2
  · intro p hp
    obtain ⟨listed, full, -⟩ := mem_moving.1 hp
    exact ⟨full, Text.notMem_of_mem_split listed⟩

/-- The segments that stay where they are do not matter for the normal form. -/
theorem foldl_pushSegment_filter (parts kept : List (List Char)) :
    (parts.filter fun p => p ≠ [] && p ≠ here).foldl (pushSegment true) kept
      = parts.foldl (pushSegment true) kept := by
  induction parts generalizing kept with
  | nil => rfl
  | cons p parts ih =>
    by_cases stays : p = [] ∨ p = here
    · have same : pushSegment true kept p = kept := if_pos stays
      rw [List.filter_cons_of_neg (by simpa [or_iff_not_imp_left] using stays), ih, List.foldl_cons, same]
    · rw [List.filter_cons_of_pos (by simpa [not_or] using stays), List.foldl_cons,
        List.foldl_cons, ih]

theorem steps_eq_moving (absolute : isAbsolute root = true) :
    steps root = normalSegments true (moving root) := by
  rw [steps_eq_normalSegments absolute]
  unfold normalSegments moving
  rw [foldl_pushSegment_filter]

theorem steps_plain (absolute : isAbsolute root = true) : steps (plain root) = steps root := by
  rw [steps_eq_moving (isAbsolute_plain absolute), moving_plain absolute, steps_eq_moving absolute]

/-! ### Slashes at the end -/

theorem trimSlashes_concat (cs : List Char) : trimSlashes (cs ++ ['/']) = trimSlashes cs := by
  unfold trimSlashes
  simp

theorem trimSlashes_concat_of_ne {c : Char} (other : c ≠ '/') (cs : List Char) :
    trimSlashes (cs ++ [c]) = cs ++ [c] := by
  unfold trimSlashes
  simp [other]

theorem moving_trimSlashes (cs : List Char) :
    moving (String.ofList (trimSlashes cs)) = moving (String.ofList cs) := by
  induction cs using List.reverseRecOn with
  | nil => rfl
  | append_singleton cs c ih =>
    by_cases slash : c = '/'
    · subst slash
      rw [trimSlashes_concat, ih]
      unfold moving segments
      rw [String.toList_ofList, String.toList_ofList, Text.split_append, List.filter_append]
      simp [Text.split, Text.splitBy]
    · rw [trimSlashes_concat_of_ne slash]

theorem isAbsolute_trimSlashes (given : isAbsolute path = false) :
    isAbsolute (String.ofList (trimSlashes path.toList)) = false := by
  have front : trimSlashes path.toList <+: path.toList := by
    unfold trimSlashes
    rw [← List.reverse_suffix, List.reverse_reverse]
    exact List.dropWhile_suffix _
  obtain ⟨rest, eq⟩ := front
  unfold isAbsolute at given ⊢
  rw [String.toList_ofList]
  cases first : trimSlashes path.toList with
  | nil => rfl
  | cons c more =>
    rw [← eq, first] at given
    exact given

end Path

namespace Manifest

/-! ### Workspaces -/

/-- A path from the root of a project, which may have a star behind it. -/
structure Workspace where
  path : String
  starred : Bool
  literal : '*' ∉ path.toList
  relative : Path.isAbsolute (Path.slashed path) = false

namespace Workspace

variable {root : String} (w : Workspace)

/-- The pattern that stands for the workspace in a manifest. -/
def pattern : String := if w.starred then w.path ++ "/*" else w.path

/-- The folder at the path of the workspace. -/
def folder (root : String) : String := Path.plain (Path.join root (Path.slashed w.path))

theorem notMem_slashed : '*' ∉ (Path.slashed w.path).toList := by
  unfold Path.slashed
  rw [String.toList_ofList, List.mem_map]
  rintro ⟨c, hc, eq⟩
  split at eq
  · cases eq
  · exact w.literal (eq ▸ hc)

/-- Before the star stands the path of the workspace, up to slashes at the end. -/
theorem trimSlashes_pattern :
    Path.trimSlashes ((Path.slashed w.pattern).toList.takeWhile (· != '*'))
      = Path.trimSlashes (Path.slashed w.path).toList := by
  have before : ∀ c ∈ (Path.slashed w.path).toList, (c != '*') = true := by
    intro c hc
    rw [bne_iff_ne]
    rintro rfl
    exact w.notMem_slashed hc
  unfold pattern
  split
  · have behind : (Path.slashed (w.path ++ "/*")).toList
        = (Path.slashed w.path).toList ++ ['/', '*'] := by
      unfold Path.slashed
      simp
    rw [behind, List.takeWhile_append_of_pos before]
    exact Path.trimSlashes_concat _
  · rw [List.takeWhile_eq_self_iff.2 before]

/-- **The packages of a workspace are looked for in the folder at its path**, with a star or
without. -/
theorem workspaceFolder_pattern (absolute : Path.isAbsolute root = true)
    (plain : Path.plain root = root) : workspaceFolder root w.pattern = w.folder root := by
  unfold workspaceFolder folder
  dsimp only
  rw [w.trimSlashes_pattern]
  have given := w.relative
  have same := Path.moving_trimSlashes (Path.slashed w.path).toList
  have given' := Path.isAbsolute_trimSlashes given
  rw [String.ofList_toList] at same
  generalize Path.trimSlashes (Path.slashed w.path).toList = base at same given' ⊢
  by_cases none : base.isEmpty = true
  · -- the path does not lead anywhere from the root
    rw [if_pos none]
    rw [List.isEmpty_iff.1 none] at same
    conv_lhs => rw [← plain]
    apply Path.plain_congr
    · rw [Path.leadingSlashes_join absolute given]
    · rw [Path.moving_join absolute given, ← same]
      exact (List.append_nil _).symm
  · rw [if_neg none]
    apply Path.plain_congr
    · rw [Path.leadingSlashes_join absolute given', Path.leadingSlashes_join absolute given]
    · rw [Path.moving_join absolute given', Path.moving_join absolute given, same]

theorem isAbsolute_folder (absolute : Path.isAbsolute root = true) :
    Path.isAbsolute (w.folder root) = true :=
  Path.isAbsolute_plain (Path.isAbsolute_join absolute w.relative)

/-- The path of the workspace does not step back. -/
def Straight : Prop := Path.back ∉ Path.segments (Path.slashed w.path).toList

/-- The folder of a workspace that does not step back goes straight down from the root. -/
theorem steps_folder (absolute : Path.isAbsolute root = true) (straight : w.Straight) :
    Path.steps (w.folder root) = Path.steps root ++ Path.moving (Path.slashed w.path) := by
  have joined := Path.isAbsolute_join absolute w.relative
  have down : ∀ p ∈ Path.moving (Path.slashed w.path), Path.IsStep p := by
    intro p hp
    obtain ⟨listed, full, moves⟩ := Path.mem_moving.1 hp
    exact ⟨full, moves, fun back => straight (back ▸ listed), Text.notMem_of_mem_split listed⟩
  unfold folder
  rw [Path.steps_plain joined, Path.steps_eq_normalSegments joined,
    Path.normalSegments_join absolute w.relative, ← Path.foldl_pushSegment_filter]
  show ((Path.moving (Path.slashed w.path)).foldl (Path.pushSegment true) _).reverse = _
  rw [Path.foldl_pushSegment_of_isStep down]
  simp

/-- Two such folders that are the same place have the same text. -/
theorem folder_eq_of_steps_eq {w w' : Workspace} (absolute : Path.isAbsolute root = true)
    (straight : w.Straight) (straight' : w'.Straight)
    (same : Path.steps (w.folder root) = Path.steps (w'.folder root)) :
    w.folder root = w'.folder root := by
  rw [w.steps_folder absolute straight, w'.steps_folder absolute straight'] at same
  apply Path.plain_congr
  · rw [Path.leadingSlashes_join absolute w.relative, Path.leadingSlashes_join absolute w'.relative]
  · rw [Path.moving_join absolute w.relative, Path.moving_join absolute w'.relative,
      List.append_cancel_left same]

end Workspace

/-! ### Packages -/

variable {t : FileTree} {root folder name : String}

/-- A package is right in a folder: one of the folders there has the name and holds a manifest. -/
def HasPackage (t : FileTree) (folder name : String) : Prop :=
  ∃ top, t.find? folder = some top ∧ top.HoldsFile [name, fileName]

/-- The path of the manifest of a package. -/
def manifestOf (folder name : String) : String := Path.along folder [name, fileName]

theorem isStep_fileName : Path.IsStep fileName.toList := by decide

theorem isStep_of_mem_way (step : Path.IsStep name.toList) :
    ∀ part ∈ [name, fileName], Path.IsStep part.toList := by
  simp [step, isStep_fileName]

theorem steps_manifestOf (absolute : Path.isAbsolute folder = true)
    (step : Path.IsStep name.toList) :
    Path.steps (manifestOf folder name) = Path.steps folder ++ [name.toList, fileName.toList] :=
  Path.append_along Path.steps_join absolute (isStep_of_mem_way step)

theorem hasFile_manifestOf_iff (absolute : Path.isAbsolute folder = true)
    (step : Path.IsStep name.toList) :
    t.hasFile (manifestOf folder name) = true ↔ HasPackage t folder name :=
  FileTree.hasFile_along_iff absolute (isStep_of_mem_way step)

theorem HasPackage.isStep (proper : t.Proper) (h : HasPackage t folder name) :
    Path.IsStep name.toList := by
  obtain ⟨top, found, holds⟩ := h
  exact holds.steps (proper.find? found) name List.mem_cons_self

/-- The manifests that are found in a folder are those of its packages, by name. -/
theorem exists_manifestsIn_eq (proper : t.Proper) (absolute : Path.isAbsolute folder = true) :
    ∃ names : List String, manifestsIn t folder = names.map (manifestOf folder) ∧
      names.Pairwise (· < ·) ∧ ∀ name, name ∈ names ↔ HasPackage t folder name := by
  unfold manifestsIn
  rcases found : t.find? folder with - | ⟨bytes⟩ | ⟨entries⟩
  · refine ⟨[], rfl, .nil, fun name => ⟨nofun, ?_⟩⟩
    rintro ⟨top, here, -⟩
    rw [found] at here
    cases here
  · refine ⟨[], rfl, .nil, fun name => ⟨nofun, ?_⟩⟩
    rintro ⟨top, here, holds⟩
    obtain rfl := Option.some.inj (found.symm.trans here)
    cases holds.isFile_eq_false (List.cons_ne_nil _ _)
  · obtain _ | ⟨once, named, -⟩ := proper.find? found
    refine ⟨(sorted (entries.map Prod.fst)).filter fun name => t.hasFile (manifestOf folder name),
      ?_, (pairwise_lt_sorted once).filter _, ?_⟩
    · show ((sorted (entries.map Prod.fst)).map (manifestOf folder)).filter t.hasFile = _
      rw [List.filter_map, Function.comp_def]
    · intro name
      rw [List.mem_filter, mem_sorted]
      constructor
      · rintro ⟨listed, file⟩
        obtain ⟨e, he, rfl⟩ := List.mem_map.1 listed
        exact (hasFile_manifestOf_iff absolute (named e he)).1 file
      · intro package
        have file := (hasFile_manifestOf_iff absolute (package.isStep proper)).2 package
        obtain ⟨top, here, holds⟩ := package
        obtain rfl := Option.some.inj (found.symm.trans here)
        obtain ⟨u, listed, -⟩ := (FileTree.holdsFile_cons_iff once).1 holds
        exact ⟨List.mem_map.2 ⟨(name, u), listed, rfl⟩, file⟩

/-- The manifest of the project itself, if it has one. -/
def ownFile (t : FileTree) (root : String) : List String :=
  if t.hasFile (Path.join root fileName) then [Path.join root fileName] else []

theorem appendNew_eq (xs ys : List String) : appendNew xs ys = ys.foldl insertNew xs := rfl

theorem files_eq {ws : List Workspace} {lists : Workspace → List String}
    (found : ∀ w, manifestsIn t (workspaceFolder root w.pattern) = lists w) :
    files t root (ws.map Workspace.pattern) = (ownFile t root ++ ws.flatMap lists).eraseDups := by
  have first : (ownFile t root).eraseDups = ownFile t root := by
    unfold ownFile
    split <;> rfl
  rw [← foldl_insertNew_eraseDups, first, List.foldl_flatMap]
  unfold files
  rw [List.foldl_map]
  simp only [found, appendNew_eq]
  unfold ownFile
  rfl

/-! ### One text for each manifest -/

section

variable {w w' : Workspace} {name' : String}

/-- The manifests of two packages that are the same place have the same text. -/
theorem manifestOf_eq_of_steps_eq (absolute : Path.isAbsolute root = true) (straight : w.Straight)
    (straight' : w'.Straight) (step : Path.IsStep name.toList) (step' : Path.IsStep name'.toList)
    (same : Path.steps (manifestOf (w.folder root) name)
      = Path.steps (manifestOf (w'.folder root) name')) :
    manifestOf (w.folder root) name = manifestOf (w'.folder root) name' := by
  rw [steps_manifestOf (w.isAbsolute_folder absolute) step,
    steps_manifestOf (w'.isAbsolute_folder absolute) step'] at same
  obtain ⟨folders, ends⟩ := List.append_inj' same rfl
  have names : name = name' := String.toList_inj.1 (List.cons.inj ends).1
  rw [Workspace.folder_eq_of_steps_eq absolute straight straight' folders, names]

/-- The manifest of a package stands deeper than that of the project. -/
theorem steps_join_ne_steps_manifestOf (absolute : Path.isAbsolute root = true)
    (straight : w.Straight) (step : Path.IsStep name.toList) :
    Path.steps (Path.join root fileName) ≠ Path.steps (manifestOf (w.folder root) name) := by
  rw [Path.steps_join absolute isStep_fileName,
    steps_manifestOf (w.isAbsolute_folder absolute) step, w.steps_folder absolute straight]
  intro same
  have lengths := congrArg List.length same
  simp only [List.length_append, List.length_cons, List.length_nil] at lengths
  omega

/-- Manifests with different texts are different files, where no workspace steps back. -/
theorem nodup_map_normalize {ws : List Workspace} {manifests : List String}
    (absolute : Path.isAbsolute root = true) (straight : ∀ w ∈ ws, w.Straight)
    (origin : ∀ file ∈ manifests, file = Path.join root fileName ∨
      ∃ w ∈ ws, ∃ name, Path.IsStep name.toList ∧ file = manifestOf (w.folder root) name)
    (once : manifests.Nodup) : (manifests.map Path.normalize).Nodup := by
  apply List.Nodup.map_on _ once
  intro file listed file' listed' same
  have steps : Path.steps file = Path.steps file' := by
    unfold Path.steps
    rw [same]
  rcases origin file listed with rfl | ⟨w, hw, name, step, rfl⟩ <;>
    rcases origin file' listed' with rfl | ⟨w', hw', name', step', rfl⟩
  · rfl
  · exact absurd steps (steps_join_ne_steps_manifestOf absolute (straight w' hw') step')
  · exact absurd steps.symm (steps_join_ne_steps_manifestOf absolute (straight w hw) step)
  · exact manifestOf_eq_of_steps_eq absolute (straight w hw) (straight w' hw') step step' steps

end

/-- **The packages of a project.**  Let a tree be as a disk holds it, and let workspaces be given by
paths from the root, with a star behind them or without.  The manifests of the project are, each
text once and where it comes first: the one of the root, if there is one, and then, workspace by
workspace, those of the packages right in the folder of the workspace, by name.  Where no workspace
steps back, no two of them are the same file. -/
theorem files_are_packages (proper : t.Proper) (absolute : Path.isAbsolute root = true)
    (plain : Path.plain root = root) (ws : List Workspace) :
    ∃ names : Workspace → List String,
      (∀ w, (names w).Pairwise (· < ·) ∧
        ∀ name, name ∈ names w ↔ HasPackage t (w.folder root) name) ∧
      files t root (ws.map Workspace.pattern) = (ownFile t root ++
        ws.flatMap fun w => (names w).map (manifestOf (w.folder root))).eraseDups ∧
      (files t root (ws.map Workspace.pattern)).Nodup ∧
      ((∀ w ∈ ws, w.Straight) →
        ((files t root (ws.map Workspace.pattern)).map Path.normalize).Nodup) := by
  choose names found order mem using fun w : Workspace =>
    exists_manifestsIn_eq proper (w.isAbsolute_folder absolute)
  have eq : files t root (ws.map Workspace.pattern) = (ownFile t root ++
      ws.flatMap fun w => (names w).map (manifestOf (w.folder root))).eraseDups := by
    apply files_eq
    intro w
    rw [w.workspaceFolder_pattern absolute plain, found w]
  have once : (files t root (ws.map Workspace.pattern)).Nodup := by
    rw [eq, ← foldl_insertNew_nil]
    exact nodup_foldl_insertNew List.nodup_nil
  refine ⟨names, fun w => ⟨order w, mem w⟩, eq, once, fun straight => ?_⟩
  apply nodup_map_normalize absolute straight _ once
  -- what is listed is the manifest of the root or that of a package
  intro file listed
  rw [eq, List.mem_eraseDups, List.mem_append] at listed
  rcases listed with own | listed
  · left
    unfold ownFile at own
    split at own
    · exact List.mem_singleton.1 own
    · cases own
  · right
    obtain ⟨w, hw, listed⟩ := List.mem_flatMap.1 listed
    obtain ⟨name, hname, rfl⟩ := List.mem_map.1 listed
    exact ⟨w, hw, name, ((mem w name).1 hname).isStep proper, rfl⟩

/-- A project with a package and another one within that. -/
def nestedPackages : FileTree :=
  .folder [("package.json", .file []), ("packages", .folder [("app", .folder
    [("package.json", .file []), ("x", .folder [("package.json", .file [])])])])]

theorem proper_nestedPackages : nestedPackages.Proper := by
  have inner : (FileTree.folder [("package.json", .file [])]).Proper :=
    .folder (by decide) (by decide) (List.forall_mem_singleton.2 (.file []))
  have app : (FileTree.folder [("package.json", .file []),
      ("x", .folder [("package.json", .file [])])]).Proper :=
    .folder (by decide) (by decide)
      (List.forall_mem_cons.2 ⟨.file [], List.forall_mem_singleton.2 inner⟩)
  refine .folder (by decide) (by decide) (List.forall_mem_cons.2 ⟨.file [], ?_⟩)
  exact List.forall_mem_singleton.2 (.folder (by decide) (by decide)
    (List.forall_mem_singleton.2 app))

/-- The folder of packages with a star behind it, and one of the packages without. -/
def nestedWorkspaces : List Workspace :=
  [⟨"./packages", true, by decide, by decide⟩, ⟨"packages/app", false, by decide, by decide⟩]

theorem files_are_packages_nested :
    nestedWorkspaces.map Workspace.pattern = ["./packages/*", "packages/app"] ∧
      "/packages/app/package.json" ∈ files nestedPackages "/" ["./packages/*", "packages/app"] ∧
      "/packages/app/x/package.json" ∈ files nestedPackages "/" ["./packages/*", "packages/app"] ∧
      ((files nestedPackages "/" ["./packages/*", "packages/app"]).map Path.normalize).Nodup := by
  have patterns : nestedWorkspaces.map Workspace.pattern = ["./packages/*", "packages/app"] := by
    decide
  have absolute : Path.isAbsolute "/" = true := by decide
  obtain ⟨names, spec, eq, -, apart⟩ :=
    files_are_packages proper_nestedPackages absolute (by decide) nestedWorkspaces
  have listed : ∀ w ∈ nestedWorkspaces, ∀ name, HasPackage nestedPackages (w.folder "/") name →
      manifestOf (w.folder "/") name ∈
        files nestedPackages "/" ["./packages/*", "packages/app"] := by
    intro w hw name package
    rw [← patterns, eq, List.mem_eraseDups]
    apply List.mem_append_right
    exact List.mem_flatMap.2 ⟨w, hw, List.mem_map.2 ⟨name, ((spec w).2 name).2 package, rfl⟩⟩
  refine ⟨patterns, ?_, ?_, ?_⟩
  · refine listed _ List.mem_cons_self "app" ?_
    exact (hasFile_manifestOf_iff (by decide +kernel) (by decide)).1 (by decide +kernel)
  · refine listed _ (List.mem_cons_of_mem _ List.mem_cons_self) "x" ?_
    exact (hasFile_manifestOf_iff (by decide +kernel) (by decide)).1 (by decide +kernel)
  · rw [← patterns]
    apply apart
    unfold Workspace.Straight
    decide +kernel

/-- A folder with a folder that has a manifest. -/
def around (outer inner : String) : FileTree :=
  .folder [(outer, .folder [(inner, .folder [("package.json", .file [])])])]

/-- A path without a star does not name the package that is there; a backslash in it is a slash; and
a path that steps back can name a manifest a second time. -/
theorem literal_is_no_package :
    (around "packages" "app").hasFile "/packages/app/package.json" = true ∧
      files (around "packages" "app") "/" ["packages/app"] = [] ∧
      (around "a\\b" "x").hasFile "/a\\b/x/package.json" = true ∧
      files (around "a\\b" "x") "/" ["a\\b/*"] = [] ∧
      files (around "work" "project") "/work/project" ["../*"]
        = ["/work/project/package.json", "/work/project/../project/package.json"] ∧
      Path.normalize "/work/project/../project/package.json" = "/work/project/package.json" := by
  decide +kernel

end Manifest

end ModuleAtlas
