/-
ModuleAtlas/Proofs/ExportTargets.lean

The targets of an exports field, read in two ways.

`Manifest.reached` collects the targets of a value and lists each one once, part after part;
`Manifest.conditioned` lists every target with its condition, as often as it occurs.  Both take of
an array the first item that has any target, so they would part at an item of which one of them
sees a target and the other does not.  An empty text is such an item, and the only one: to the
first it is no target, to the second it is.  So the two agree on a value exactly if the empty text
is not among the targets that are listed with a condition (`targets_eq_iff`), and then they do so
although one lists each target once within every part and the other only at the end
(`foldl_foldl_insertNew`).

Main result: `targets_seen_alike`, on values and from there on manifests.
-/
import Mathlib.Data.List.Basic
import ModuleAtlas.Proofs.SubpathConditions

namespace ModuleAtlas

/-! ### Listing each element once -/

section

variable {α : Type} [BEq α] [LawfulBEq α]

/-- To list each element once in a part first changes nothing. -/
theorem foldl_foldl_insertNew (found part ys : List α) :
    (ys.foldl insertNew part).foldl insertNew found =
      ys.foldl insertNew (part.foldl insertNew found) := by
  have step : ∀ (part : List α) (y : α), (insertNew part y).foldl insertNew found =
      insertNew (part.foldl insertNew found) y := by
    intro part y
    by_cases old : y ∈ part
    · have inPart : insertNew part y = part := if_pos (List.contains_iff_mem.2 old)
      have inAll : y ∈ part.foldl insertNew found := mem_foldl_insertNew.2 (.inr old)
      rw [inPart]
      exact (if_pos (List.contains_iff_mem.2 inAll)).symm
    · have put : insertNew part y = part ++ [y] :=
        if_neg fun here => old (List.contains_iff_mem.1 here)
      rw [put, List.foldl_append]
      rfl
  induction ys generalizing part with
  | nil => rfl
  | cons y ys ih => rw [List.foldl_cons, ih, step, List.foldl_cons]

end

/-! ### Texts in a value -/

/-- The text stands somewhere in the value, as a value of its own. -/
inductive Json.Leaf : Json → String → Prop
  | text (s : String) : Leaf (.string s) s
  | item {s : String} {items : List Json} {i : Json} (listed : i ∈ items) (part : Leaf i s) :
      Leaf (.array items) s
  | field {s : String} {fields : List (String × Json)} {f : String × Json} (listed : f ∈ fields)
      (part : Leaf f.2 s) : Leaf (.object fields) s

namespace Manifest

variable {value : Json} {outer target : String}

/-! ### What is collected -/

theorem targets_string (s : String) :
    (reached (.string s)).targets = if isExclusion s = true ∨ s = "" then [] else [s] := by
  unfold reached
  by_cases excluded : isExclusion s = true
  · simp [excluded]
  · rw [if_neg excluded]
    by_cases empty : s = "" <;> simp [excluded, empty]

/-- Of an array the targets are those of one item, or there are none. -/
theorem targets_array_cases (items : List Json) :
    (reached (.array items)).targets = [] ∨
      ∃ i ∈ items, (reached (.array items)).targets = (reached i).targets := by
  rw [reached]
  induction items with
  | nil => exact .inl rfl
  | cons first rest ih =>
    unfold reachedFirst
    dsimp only
    by_cases none : (reached first).targets.isEmpty = true
    · rw [if_pos none]
      rcases ih with empty | ⟨i, hi, eq⟩
      · exact .inl empty
      · exact .inr ⟨i, List.mem_cons_of_mem first hi, eq⟩
    · rw [if_neg none]
      exact .inr ⟨first, List.mem_cons_self, rfl⟩

theorem targets_field (found : Reached) (f : String × Json) :
    (reachedField found f).targets = (reached f.2).targets.foldl insertNew found.targets := by
  obtain ⟨key, value⟩ := f
  cases value <;> rfl

/-- Of an object the targets are those of all conditions, each listed once. -/
theorem targets_all (found : Reached) (fields : List (String × Json)) :
    (reachedAll found fields).targets =
      (fields.flatMap fun f => (reached f.2).targets).foldl insertNew found.targets := by
  induction fields generalizing found with
  | nil => rfl
  | cons f rest ih =>
    unfold reachedAll
    rw [ih, targets_field, List.flatMap_cons, List.foldl_append]

/-- No target is collected twice. -/
theorem nodup_targets (value : Json) : (reached value).targets.Nodup := by
  induction value using Json.parts_induction with
  | null | bool | number => exact List.nodup_nil
  | string s =>
    rw [targets_string]
    split <;> simp
  | array items ih =>
    rcases targets_array_cases items with none | ⟨i, hi, eq⟩
    · rw [none]
      exact List.nodup_nil
    · rw [eq]
      exact ih i hi
  | object fields _ =>
    rw [reached, targets_all]
    exact nodup_foldl_insertNew List.nodup_nil

/-- What is collected is a text of the value, neither left out nor empty. -/
theorem leaf_of_mem_targets (h : target ∈ (reached value).targets) :
    value.Leaf target ∧ isExclusion target = false ∧ target ≠ "" := by
  induction value using Json.parts_induction with
  | null | bool | number => cases h
  | string s =>
    rw [targets_string] at h
    split at h
    · cases h
    · next full =>
      obtain rfl := List.mem_singleton.1 h
      rw [not_or, Bool.not_eq_true] at full
      exact ⟨.text target, full⟩
  | array items ih =>
    rcases targets_array_cases items with none | ⟨i, hi, eq⟩
    · rw [none] at h
      cases h
    · rw [eq] at h
      obtain ⟨leaf, full⟩ := ih i hi h
      exact ⟨.item hi leaf, full⟩
  | object fields ih =>
    rw [reached, targets_all, mem_foldl_insertNew] at h
    rcases h with h | h
    · cases h
    · obtain ⟨f, hf, h⟩ := List.mem_flatMap.1 h
      obtain ⟨leaf, full⟩ := ih f hf h
      exact ⟨.field hf leaf, full⟩

/-! ### What is listed with conditions -/

/-- The targets of a value that are listed with their conditions. -/
def listed (outer : String) (value : Json) : List String := (conditioned outer value).map Prod.snd

theorem listed_string (outer s : String) :
    listed outer (.string s) = if isExclusion s = true then [] else [s] := by
  unfold listed conditioned
  split <;> rfl

theorem listed_array_cons (outer : String) (first : Json) (rest : List Json) :
    listed outer (.array (first :: rest)) =
      if listed outer first = [] then listed outer (.array rest) else listed outer first := by
  unfold listed
  rw [conditioned, conditionedFirst, conditioned]
  cases conditioned outer first <;> rfl

theorem listed_object (outer : String) (fields : List (String × Json)) :
    listed outer (.object fields) = fields.flatMap fun f => listed (inside outer f.1) f.2 := by
  unfold listed
  rw [conditioned]
  induction fields with
  | nil => rfl
  | cons f rest ih =>
    obtain ⟨key, value⟩ := f
    rw [conditionedAll, List.map_append, ih, List.flatMap_cons]
    rfl

/-- What is listed with a condition is a text of the value that is not left out. -/
theorem leaf_of_mem_listed (h : target ∈ listed outer value) :
    value.Leaf target ∧ isExclusion target = false := by
  induction value using Json.parts_induction generalizing outer with
  | null | bool | number => cases h
  | string s =>
    rw [listed_string] at h
    split at h
    · cases h
    · next kept =>
      obtain rfl := List.mem_singleton.1 h
      exact ⟨.text target, by simpa using kept⟩
  | array items ih =>
    have item : ∃ i ∈ items, target ∈ listed outer i := by
      clear ih
      induction items with
      | nil => cases h
      | cons first rest next =>
        rw [listed_array_cons] at h
        split at h
        · obtain ⟨i, hi, h⟩ := next h
          exact ⟨i, List.mem_cons_of_mem first hi, h⟩
        · exact ⟨first, List.mem_cons_self, h⟩
    obtain ⟨i, hi, h⟩ := item
    obtain ⟨leaf, kept⟩ := ih i hi h
    exact ⟨.item hi leaf, kept⟩
  | object fields ih =>
    rw [listed_object] at h
    obtain ⟨f, hf, h⟩ := List.mem_flatMap.1 h
    obtain ⟨leaf, kept⟩ := ih f hf h
    exact ⟨.field hf leaf, kept⟩

/-! ### The two readings -/

/-- The two readings agree on a value. -/
def Agree (value : Json) : Prop :=
  ∀ outer, "" ∉ listed outer value → (reached value).targets = (listed outer value).eraseDups

theorem agree_string (s : String) : Agree (.string s) := by
  intro outer full
  rw [listed_string] at full ⊢
  rw [targets_string]
  by_cases excluded : isExclusion s = true
  · simp [excluded]
  · have other : s ≠ "" := by
      rintro rfl
      simp [excluded] at full
    simp [excluded, other, List.eraseDups_cons]

/-- The first item with a target is the same one in both readings. -/
theorem agree_array {items : List Json} (parts : ∀ i ∈ items, Agree i) : Agree (.array items) := by
  intro outer full
  rw [reached]
  induction items with
  | nil => rfl
  | cons first rest ih =>
    have here : Agree first := parts first List.mem_cons_self
    rw [listed_array_cons] at full ⊢
    unfold reachedFirst
    dsimp only
    by_cases none : listed outer first = []
    · -- nothing is listed here, so nothing is collected either
      have collected : (reached first).targets = [] := by
        rw [here outer (by simp [none]), none]
        rfl
      rw [if_pos none] at full ⊢
      rw [collected, if_pos List.isEmpty_nil]
      exact ih (fun i hi => parts i (List.mem_cons_of_mem first hi)) full
    · rw [if_neg none] at full ⊢
      have collected := here outer full
      have some : (reached first).targets.isEmpty = false := by
        obtain ⟨t, ht⟩ := List.exists_mem_of_ne_nil _ none
        rw [List.isEmpty_eq_false_iff_exists_mem, collected]
        exact ⟨t, List.mem_eraseDups.2 ht⟩
      rw [some, if_neg Bool.false_ne_true]
      exact collected

/-- Each target once in every condition, or once at the end: both give the same list. -/
theorem agree_object {fields : List (String × Json)} (parts : ∀ f ∈ fields, Agree f.2) :
    Agree (.object fields) := by
  intro outer full
  rw [listed_object] at full ⊢
  rw [reached, targets_all, ← foldl_insertNew_nil]
  show (fields.flatMap fun f => (reached f.2).targets).foldl insertNew [] = _
  generalize ([] : List String) = found
  induction fields generalizing found with
  | nil => rfl
  | cons f rest ih =>
    rw [List.flatMap_cons, List.mem_append, not_or] at full
    have here := parts f List.mem_cons_self (inside outer f.1) full.1
    rw [List.flatMap_cons, List.flatMap_cons, List.foldl_append, List.foldl_append, here,
      ← foldl_insertNew_nil, foldl_foldl_insertNew]
    exact ih (fun k hk => parts k (List.mem_cons_of_mem f hk)) full.2 _

theorem agree (value : Json) : Agree value := by
  induction value using Json.parts_induction with
  | null | bool | number => exact fun _ _ => rfl
  | string s => exact agree_string s
  | array items ih => exact agree_array ih
  | object fields ih => exact agree_object ih

/-- **The two readings agree exactly if no empty text is listed.** -/
theorem targets_eq_iff (outer : String) (value : Json) :
    (reached value).targets = (listed outer value).eraseDups ↔ "" ∉ listed outer value := by
  constructor
  · intro same empty
    rw [← List.mem_eraseDups, ← same] at empty
    exact (leaf_of_mem_targets empty).2.2 rfl
  · exact agree value outer

/-! ### Manifests -/

/-- A subpath with its targets, unless it has none. -/
def withTargets (path : String) (targets : List String) : Option (String × List String) :=
  if targets.isEmpty then none else some (path, targets)

theorem withTargets_eq_some_iff {path : String} {targets : List String}
    {s : String × List String} :
    withTargets path targets = some s ↔ targets ≠ [] ∧ s = (path, targets) := by
  unfold withTargets
  cases targets <;> simp [eq_comm]

theorem subpathTargets_cons (s : String × Json) (rest : List (String × Json)) :
    (subpathTargets (s :: rest)).1 =
      (withTargets s.1 (reached s.2).targets).toList ++ (subpathTargets rest).1 := by
  obtain ⟨path, value⟩ := s
  rw [subpathTargets]
  obtain ⟨more, left⟩ := subpathTargets rest
  unfold withTargets
  cases value with
  | null => rfl
  | _ =>
    dsimp only
    split <;> rfl

theorem subpathTargets_eq (subs : List (String × Json)) :
    (subpathTargets subs).1 = subs.filterMap fun s => withTargets s.1 (reached s.2).targets := by
  induction subs with
  | nil => rfl
  | cons s rest ih =>
    rw [subpathTargets_cons, ih, List.filterMap_cons]
    cases withTargets s.1 (reached s.2).targets <;> rfl

theorem exports_entryPoints (m : Fields) :
    (entryPoints m).exports = (subpaths (Json.field m "exports")).filterMap fun s =>
      withTargets s.1 (reached s.2).targets :=
  subpathTargets_eq _

/-- The texts of a subpath are texts of the exports field. -/
theorem leaf_of_mem_subpaths {s : String × Json} (h : s ∈ subpaths value)
    (leaf : s.2.Leaf target) : value.Leaf target := by
  cases value with
  | null => cases h
  | object fields =>
    unfold subpaths at h
    dsimp only at h
    split at h
    · exact .field (List.mem_of_mem_filter h) leaf
    · obtain rfl := List.mem_singleton.1 h
      exact leaf
  | _ =>
    obtain rfl := List.mem_singleton.1 h
    exact leaf

end Manifest

namespace ExportsMap

open Manifest (listed withTargets)

variable {m : Manifest.Fields} {root : String} {map : ExportsMap}

/-- The targets of a map, subpath by subpath and each target once.  Subpaths without a target are
left out. -/
def listing (map : ExportsMap) : List (String × List String) :=
  map.paths.filterMap fun p =>
    withTargets p.path (p.conditions.map ExportCondition.target).eraseDups

theorem map_target_pathOf (root path : String) (value : Json) :
    (pathOf root path value).conditions.map ExportCondition.target = listed "" value := by
  unfold pathOf listed
  rw [List.map_map]
  rfl

theorem paths_of_ofManifest? (h : ofManifest? m root = some map) :
    map.paths = ((Manifest.subpaths (Json.field m "exports")).filter fun s => !isNull s.2).map
      fun s => pathOf root s.1 s.2 := by
  unfold ofManifest? at h
  dsimp only at h
  split at h
  · cases h
  · obtain rfl := Option.some.inj h
    rfl

/-- The map lists what is listed with conditions in each subpath. -/
theorem listing_eq (h : ofManifest? m root = some map) :
    map.listing = (Manifest.subpaths (Json.field m "exports")).filterMap fun s =>
      withTargets s.1 (listed "" s.2).eraseDups := by
  unfold listing
  rw [paths_of_ofManifest? h, List.filterMap_map, List.filterMap_filter]
  apply List.filterMap_congr
  rintro ⟨path, value⟩ _
  rw [Function.comp_apply, map_target_pathOf]
  -- a null subpath is left out, and it has no targets either
  cases value <;> rfl

theorem mem_targets_iff (h : ofManifest? m root = some map) {target : String} :
    target ∈ map.targets ↔
      ∃ s ∈ Manifest.subpaths (Json.field m "exports"), target ∈ listed "" s.2 := by
  unfold targets
  rw [paths_of_ofManifest? h]
  simp only [List.flatMap_map, map_target_pathOf, List.mem_flatMap, List.mem_filter]
  constructor
  · rintro ⟨s, ⟨hs, -⟩, here⟩
    exact ⟨s, hs, here⟩
  · rintro ⟨⟨path, value⟩, hs, here⟩
    refine ⟨_, ⟨hs, ?_⟩, here⟩
    cases value with
    | null => cases here
    | _ => rfl

/-- **Entry points and the exports map list the same targets** for each subpath, exactly if no
condition has an empty one. -/
theorem exports_eq_listing_iff (h : ofManifest? m root = some map) :
    (Manifest.entryPoints m).exports = map.listing ↔ "" ∉ map.targets := by
  rw [Manifest.exports_entryPoints, listing_eq h, mem_targets_iff h]
  constructor
  · rintro same ⟨s, hs, empty⟩
    have mapped : withTargets s.1 (listed "" s.2).eraseDups =
        some (s.1, (listed "" s.2).eraseDups) := by
      rw [Manifest.withTargets_eq_some_iff]
      exact ⟨List.ne_nil_of_mem (List.mem_eraseDups.2 empty), rfl⟩
    have here : (s.1, (listed "" s.2).eraseDups) ∈
        (Manifest.subpaths (Json.field m "exports")).filterMap fun s =>
          withTargets s.1 (listed "" s.2).eraseDups :=
      List.mem_filterMap.2 ⟨s, hs, mapped⟩
    rw [← same] at here
    -- the same list would have to be among what is collected, where nothing is empty
    obtain ⟨s', -, collected⟩ := List.mem_filterMap.1 here
    have eq : (listed "" s.2).eraseDups = (Manifest.reached s'.2).targets :=
      congrArg Prod.snd (Manifest.withTargets_eq_some_iff.1 collected).2
    have mem : "" ∈ (Manifest.reached s'.2).targets := by
      rw [← eq]
      exact List.mem_eraseDups.2 empty
    exact (Manifest.leaf_of_mem_targets mem).2.2 rfl
  · intro full
    apply List.filterMap_congr
    intro s hs
    rw [(Manifest.targets_eq_iff "" s.2).2 fun empty => full ⟨s, hs, empty⟩]

end ExportsMap

/-- **Both readings of an exports field see the same targets.**
 * Of a value without empty texts, the targets that are listed with conditions are, less the later
   repetitions, those that are collected.
 * Whatever the value, no target is collected twice, and what is collected or listed is a text of
   the value without the mark of what is left out.
 * Of a manifest whose exports have no empty texts, the entry points and the exports map have the
   same targets for each subpath; this is so exactly if no condition of the map has an empty
   target.  Without an exports field there is neither. -/
theorem targets_seen_alike :
    (∀ (outer : String) (value : Json), ¬ value.Leaf "" →
      ((Manifest.conditioned outer value).map Prod.snd).eraseDups =
        (Manifest.reached value).targets) ∧
    (∀ (outer : String) (value : Json), (Manifest.reached value).targets.Nodup ∧
      (∀ t ∈ (Manifest.reached value).targets,
        value.Leaf t ∧ Manifest.isExclusion t = false) ∧
      ∀ t ∈ (Manifest.conditioned outer value).map Prod.snd,
        value.Leaf t ∧ Manifest.isExclusion t = false) ∧
    ∀ (m : Manifest.Fields) (root : String),
      (∀ map, ExportsMap.ofManifest? m root = some map →
        (¬ (Json.field m "exports").Leaf "" → (Manifest.entryPoints m).exports = map.listing) ∧
        ((Manifest.entryPoints m).exports = map.listing ↔ "" ∉ map.targets)) ∧
      (ExportsMap.ofManifest? m root = none → (Manifest.entryPoints m).exports = []) := by
  refine ⟨?_, ?_, ?_⟩
  · intro outer value full
    have unlisted : "" ∉ Manifest.listed outer value :=
      fun empty => full (Manifest.leaf_of_mem_listed empty).1
    exact ((Manifest.targets_eq_iff outer value).2 unlisted).symm
  · intro outer value
    refine ⟨Manifest.nodup_targets value, ?_, fun t ht => Manifest.leaf_of_mem_listed ht⟩
    intro t ht
    obtain ⟨leaf, kept, -⟩ := Manifest.leaf_of_mem_targets ht
    exact ⟨leaf, kept⟩
  · intro m root
    refine ⟨fun map h => ⟨fun full => ?_, ExportsMap.exports_eq_listing_iff h⟩, ?_⟩
    · rw [ExportsMap.exports_eq_listing_iff h, ExportsMap.mem_targets_iff h]
      rintro ⟨s, hs, empty⟩
      exact full (Manifest.leaf_of_mem_subpaths hs (Manifest.leaf_of_mem_listed empty).1)
    · intro none
      have null : ExportsMap.isNull (Json.field m "exports") = true := by
        by_contra value
        unfold ExportsMap.ofManifest? at none
        dsimp only at none
        rw [if_neg value] at none
        cases none
      rw [Manifest.exports_entryPoints]
      cases value : Json.field m "exports" with
      | null => rfl
      | _ =>
        rw [value] at null
        cases null

/-- An array of conditions within a condition, and a target that occurs twice. -/
def nestedExports : Manifest.Fields :=
  [("exports", .object [(".", .object
    [("import", .array [.object [("types", .string "./a.d.ts"), ("default", .string "./a.js")],
      .string "./b.js"]), ("require", .null), ("default", .string "./a.js")])])]

theorem targets_seen_alike_nested :
    ∃ map, ExportsMap.ofManifest? nestedExports "/lib" = some map ∧
      (Manifest.entryPoints nestedExports).exports = map.listing ∧
      map.listing = [(".", ["./a.d.ts", "./a.js"])] := by
  refine ⟨_, rfl, ?_, by decide +kernel⟩
  exact ((targets_seen_alike.2.2 nestedExports "/lib").1 _ rfl).2.2 (by decide +kernel)

/-- The exports `{".": ["", "./a.js"]}`. -/
def emptyFirst : Manifest.Fields :=
  [("exports", .object [(".", .array [.string "", .string "./a.js"])])]

/-- With an empty text in front, the entry points have the next item of the array and the exports
map has the empty text, so they do not list the same targets. -/
theorem empty_target_seen_once :
    ∃ map, ExportsMap.ofManifest? emptyFirst "/lib" = some map ∧
      (Manifest.entryPoints emptyFirst).exports = [(".", ["./a.js"])] ∧
      map.listing = [(".", [""])] ∧
      (Manifest.entryPoints emptyFirst).exports ≠ map.listing :=
  ⟨_, rfl, by decide +kernel, by decide +kernel, by decide +kernel⟩

end ModuleAtlas
