/-
ModuleAtlas/Proofs/FolderLayers.lean

The usual layers by the names of folders.

The patterns of the usual layers have one form: a name between signs for folders, each of which can
stand for no folder at all.  Such a pattern matches the paths that have the name among their
segments (`holds_anywhere_iff`), the first and the last one included, and no path in which the name
is only part of a segment.

Path and pattern are compared in lower case.  The names are in lower case already, and lower case
makes neither a line break nor a slash of any other character (`mem_of_mem_lower`), so a path of one
line stays one and its segments stay apart.

Main result: `layerOf?_usual`.
-/
import Mathlib.Data.List.Find
import ModuleAtlas.Analysis.Layer
import ModuleAtlas.Proofs.LiteralPattern
import ModuleAtlas.Proofs.TestFiles

namespace ModuleAtlas

/-! ### What lower case does not make -/

namespace Text

variable {c d : Char} {s : List Char}

theorem toNat_ofNat_cases (n : Nat) : (Char.ofNat n).toNat = n ∨ (Char.ofNat n).toNat = 0 := by
  by_cases valid : n.isValidChar
  · rw [Char.ofNat, dif_pos valid]
    exact .inl rfl
  · rw [Char.ofNat, dif_neg valid]
    exact .inr rfl

/-- The signs before the small letters are not made of others. -/
theorem eq_of_lowerChar_eq (small : d.toNat < 97) (some : 0 < d.toNat) (h : lowerChar c = d) :
    c = d := by
  unfold lowerChar at h
  split at h
  · next narrow =>
    have all : ∀ n < 128, (Char.ofNat n).toLower.toNat < 97 →
        (Char.ofNat n).toLower = Char.ofNat n := by
      decide
    have same := all c.toNat narrow
    rw [Char.ofNat_toNat, h] at same
    exact (same small).symm
  · split at h
    · next run found =>
      have far : ∀ r ∈ lowerRuns, 97 ≤ (r.1 : Int) + r.2.2.2 := by decide +kernel
      have here := far run (List.mem_of_find?_eq_some found)
      have inside := List.find?_some found
      simp only [Bool.and_eq_true, decide_eq_true_eq] at inside
      rcases toNat_ofNat_cases ((c.toNat : Int) + run.2.2.2).toNat with eq | eq
      · rw [h] at eq
        omega
      · rw [h] at eq
        omega
    · exact h

theorem mem_of_mem_lowerAfter (small : d.toNat < 97) (some : 0 < d.toNat) {before : List Char}
    (h : d ∈ lowerAfter before s) : d ∈ s := by
  induction s generalizing before with
  | nil => exact h
  | cons c rest ih =>
    rw [lowerAfter] at h
    rcases List.mem_append.1 h with here | later
    · -- the two letters with rules of their own become letters
      split at here
      · rcases List.mem_cons.1 here with rfl | here
        · exact absurd small (by decide)
        · obtain rfl := List.mem_singleton.1 here
          exact absurd small (by decide)
      · split at here
        · obtain rfl := List.mem_singleton.1 here
          split at small <;> exact absurd small (by decide)
        · rw [eq_of_lowerChar_eq small some (List.mem_singleton.1 here).symm]
          exact List.mem_cons_self
    · exact List.mem_cons_of_mem c (ih later)

theorem mem_of_mem_lower {text : String} (small : d.toNat < 97) (some : 0 < d.toNat)
    (h : d ∈ (lower text).toList) : d ∈ text.toList := by
  rw [lower, String.toList_ofList] at h
  exact mem_of_mem_lowerAfter small some h

/-- Low texts are the same in lower case. -/
theorem lower_of_isLow {text : String} (low : ∀ c ∈ text.toList, IsLow c) : lower text = text := by
  have same : ∀ (s before : List Char), (∀ c ∈ s, IsLow c) → lowerAfter before s = s := by
    intro s
    induction s with
    | nil => exact fun _ _ => rfl
    | cons c rest ih =>
      intro before low
      rw [lowerAfter_cons_of_isLow (low c List.mem_cons_self),
        ih (c :: before) fun d hd => low d (List.mem_cons_of_mem c hd)]
  rw [lower, same _ [] low, String.ofList_toList]

end Text

theorem Path.notMem_slashed (s : String) : '\\' ∉ (slashed s).toList := by
  unfold slashed
  rw [String.toList_ofList, List.mem_map]
  rintro ⟨c, -, eq⟩
  split at eq
  · exact absurd eq (by decide)
  · next other => exact other (beq_iff_eq.2 eq)

namespace Architecture

variable {relative name : String}

/-! ### Folders of a layer -/

theorem notMem_folded (line : '\n' ∉ relative.toList) : '\n' ∉ (folded relative).toList := by
  intro h
  have before := Text.mem_of_mem_lower (by decide) (by decide) h
  rw [Glob.mem_slashed (by decide) (by decide)] at before
  exact line before

theorem slashed_folded (relative : String) : Path.slashed (folded relative) = folded relative := by
  apply Path.slashed_of_notMem
  intro h
  exact Path.notMem_slashed relative (Text.mem_of_mem_lower (by decide) (by decide) h)

/-- The pattern of all that has a folder of the name, or is one. -/
def anywhere (name : String) : String := "**/" ++ name ++ "/**"

/-- The name can stand in such a pattern: it is one segment, its characters stand for themselves,
and it is in lower case. -/
structure IsFolder (name : String) : Prop where
  literal : Glob.IsLiteral name.toList
  single : '/' ∉ name.toList
  low : (name.toList.all fun c => decide (Text.IsLow c)) = true

instance (name : String) : Decidable (IsFolder name) :=
  decidable_of_iff (Glob.IsLiteral name.toList ∧ '/' ∉ name.toList ∧
      (name.toList.all fun c => decide (Text.IsLow c)) = true)
    ⟨fun h => ⟨h.1, h.2.1, h.2.2⟩, fun h => ⟨h.literal, h.single, h.low⟩⟩

theorem toList_anywhere (name : String) :
    (anywhere name).toList = ['*', '*', '/'] ++ (name.toList ++ ['/', '*', '*']) := by
  unfold anywhere
  rw [String.toList_append, String.toList_append, List.append_assoc]
  rfl

theorem IsFolder.folded_anywhere (h : IsFolder name) : folded (anywhere name) = anywhere name := by
  have plain : '\\' ∉ (anywhere name).toList := by
    rw [toList_anywhere]
    simp [h.literal.notMem]
  have low : ((anywhere name).toList.all fun c => decide (Text.IsLow c)) = true := by
    rw [toList_anywhere, List.all_append, List.all_append, h.low]
    decide
  unfold folded
  rw [Path.slashed_of_notMem plain]
  apply Text.lower_of_isLow
  exact fun c hc => of_decide_eq_true (List.all_eq_true.1 low c hc)

/-- **A folder of a layer** covers the paths that have it among their segments, whatever the case of
their letters. -/
theorem IsFolder.holds_iff (h : IsFolder name) (line : '\n' ∉ relative.toList) :
    Glob.holds (folded (anywhere name)) (folded relative) = true ↔
      name ∈ foldedSegments relative := by
  have pattern : anywhere name =
      String.ofList (['*', '*', '/'] ++ (name.toList ++ ['/', '*', '*'])) := by
    rw [← toList_anywhere, String.ofList_toList]
  rw [h.folded_anywhere, pattern, Glob.holds_anywhere_iff h.literal h.single (notMem_folded line),
    slashed_folded]
  unfold foldedSegments
  rw [List.mem_map]
  constructor
  · exact fun here => ⟨name.toList, here, String.ofList_toList⟩
  · rintro ⟨cs, here, rfl⟩
    rwa [String.toList_ofList]

/-! ### The usual layers -/

/-- The usual layers in order, each with the names of its folders. -/
def usualFolders : List (String × List String) :=
  [("presentation", ["components", "pages", "views", "ui"]),
   ("domain", ["domain", "models", "entities", "core"]),
   ("infrastructure", ["services", "api", "repositories", "adapters"]),
   ("shared", ["utils", "helpers", "lib", "types", "common"])]

theorem usual_eq_usualFolders :
    usual.map (fun rule => (rule.name, rule.paths)) =
      usualFolders.map fun layer => (layer.1, layer.2.map anywhere) := by
  decide

theorem isFolder_of_mem_usualFolders : ∀ layer ∈ usualFolders, ∀ name ∈ layer.2, IsFolder name := by
  decide

/-- Some folder of the layer is among the segments of the path exactly if some pattern of it
matches. -/
theorem anyHolds_usualFolders {layer : String × List String} (listed : layer ∈ usualFolders)
    (line : '\n' ∉ relative.toList) :
    Glob.anyHolds ((layer.2.map anywhere).map folded) (folded relative) =
      layer.2.any (foldedSegments relative).contains := by
  rw [Bool.eq_iff_iff]
  unfold Glob.anyHolds
  simp only [List.any_map, List.any_eq_true, Function.comp_apply, List.contains_iff_mem]
  refine exists_congr fun name => and_congr_right fun hn => ?_
  exact (isFolder_of_mem_usualFolders layer listed name hn).holds_iff line

/-- **The usual layers go by the names of folders.**  The layer of a path of one line is the first
of the usual ones with a folder that is among the segments of the path, once slashes are all alike and
letters in lower case; if no segment is such a folder, the path has no layer. -/
theorem layerOf?_usual (line : '\n' ∉ relative.toList) :
    layerOf? usual relative =
      (usualFolders.find? fun layer => layer.2.any (foldedSegments relative).contains).map
        Prod.fst := by
  -- whether a rule applies depends on its patterns only
  let covers : String × List String → Bool := fun x =>
    Glob.anyHolds (x.2.map folded) (folded relative)
  have byPatterns : layerOf? usual relative =
      ((usual.map fun rule => (rule.name, rule.paths)).find? covers).map Prod.fst := by
    rw [List.find?_map, Option.map_map]
    rfl
  have bySegments : usualFolders.find? (covers ∘ fun layer => (layer.1, layer.2.map anywhere)) =
      usualFolders.find? fun layer => layer.2.any (foldedSegments relative).contains := by
    apply List.find?_congr
    exact fun layer listed => anyHolds_usualFolders listed line
  rw [byPatterns, usual_eq_usualFolders, List.find?_map, Option.map_map, bySegments]
  rfl

/-- A folder of a later layer further up in the path, and one whose name only holds that of a
folder. -/
theorem layerOf?_usual_mixed :
    layerOf? usual "Lib\\MyComponents/UI/x.ts" = some "presentation" ∧
      layerOf? usual "mycomponents/ui-kit.ts" = none := by
  have mixed := layerOf?_usual (by decide : '\n' ∉ "Lib\\MyComponents/UI/x.ts".toList)
  have none := layerOf?_usual (by decide : '\n' ∉ "mycomponents/ui-kit.ts".toList)
  exact ⟨mixed.trans (by decide +kernel), none.trans (by decide +kernel)⟩

end Architecture

end ModuleAtlas
