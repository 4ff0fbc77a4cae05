/-
ModuleAtlas/Proofs/SubpathConditions.lean

The conditions of a flow and the subpaths of an exports field.

A manifest is read twice for a flow: `ExportsMap.ofManifest?` keeps the targets of every
subpath with their conditions, and `Manifest.entryPoints` keeps what any of them leaves out, all
in one list.  A flow gets the conditions whose targets stand for its entries and that are not in
that list, so a subpath that nothing of a flow comes from can still take conditions away
from it.  `LeavesOut` says what a value leaves out, and `all_restrict` is what that does to
the flows: their lists are thinned, and nothing else changes.

Main result: `flows_with_subpath`.  One more subpath without a target for an entry takes from every
flow the conditions that it leaves out itself, and these only; `null_elsewhere_drops_condition`
is a manifest where it takes one.
-/
import ModuleAtlas.Analysis.Flow

namespace ModuleAtlas

/-- Induction on the parts of a value. -/
theorem Json.parts_induction {P : Json → Prop} (null : P .null) (bool : ∀ b, P (.bool b))
    (number : ∀ n, P (.number n)) (string : ∀ s, P (.string s))
    (array : ∀ items, (∀ i ∈ items, P i) → P (.array items))
    (object : ∀ fields, (∀ f ∈ fields, P f.2) → P (.object fields)) (value : Json) : P value :=
  match value with
  | .null => null
  | .bool b => bool b
  | .number n => number n
  | .string s => string s
  | .array items =>
    array items fun i _ => parts_induction null bool number string array object i
  | .object fields =>
    object fields fun f _ => parts_induction null bool number string array object f.2
termination_by sizeOf value
decreasing_by
  · next hi =>
    have := List.sizeOf_lt_of_mem hi
    simp only [Json.array.sizeOf_spec]
    omega
  · next hf =>
    have := List.sizeOf_lt_of_mem hf
    have : sizeOf f = 1 + sizeOf f.1 + sizeOf f.2 := rfl
    simp only [Json.object.sizeOf_spec]
    omega

/-- Taking elements out of a list before or after each one is listed once is the same. -/
theorem filter_foldl_insertNew {α : Type} [BEq α] [LawfulBEq α] (keep : α → Bool)
    (xs ys : List α) :
    (ys.foldl insertNew xs).filter keep = (ys.filter keep).foldl insertNew (xs.filter keep) := by
  induction ys generalizing xs with
  | nil => rfl
  | cons y ys ih =>
    have step : (insertNew xs y).filter keep =
        if keep y then insertNew (xs.filter keep) y else xs.filter keep := by
      unfold insertNew
      by_cases here : y ∈ xs <;> by_cases kept : keep y = true <;> simp [here, kept]
    rw [List.foldl_cons, ih, step, List.filter_cons]
    split <;> rfl

/-! ### What a value leaves out -/

namespace Manifest

/-- A value leaves out a name: by a text with the mark in front, by a null value under the name,
or in a part of it that counts.  Of an array the items up to the first one with a target do. -/
inductive LeavesOut : Json → String → Prop
  | text (k : String) : LeavesOut (.string (exclusion k)) k
  | null {k : String} {fields : List (String × Json)} (listed : (k, Json.null) ∈ fields) :
      LeavesOut (.object fields) k
  | field {k key : String} {value : Json} {fields : List (String × Json)}
      (listed : (key, value) ∈ fields) (part : LeavesOut value k) : LeavesOut (.object fields) k
  | item {k : String} {before after : List Json} {item : Json}
      (bare : ∀ i ∈ before, (reached i).targets = []) (part : LeavesOut item k) :
      LeavesOut (.array (before ++ item :: after)) k

variable {k : String}

theorem leavesOut_object_iff {fields : List (String × Json)} :
    LeavesOut (.object fields) k ↔ ∃ f ∈ fields, f.2 = .null ∧ f.1 = k ∨ LeavesOut f.2 k := by
  constructor
  · rintro (_ | listed | ⟨listed, part⟩)
    · exact ⟨_, listed, .inl ⟨rfl, rfl⟩⟩
    · exact ⟨_, listed, .inr part⟩
  · rintro ⟨⟨key, value⟩, listed, ⟨rfl, rfl⟩ | part⟩
    · exact .null listed
    · exact .field listed part

theorem isExclusion_exclusion (k : String) : isExclusion (exclusion k) = true := by
  unfold isExclusion exclusion Text.startsIn
  rw [String.toList_append]
  simp

theorem mem_excluded_string (s : String) :
    exclusion k ∈ (reached (.string s)).excluded ↔ s = exclusion k := by
  unfold reached
  split
  · simp [eq_comm]
  · next plain =>
    have other : s ≠ exclusion k := fun h => plain (h ▸ isExclusion_exclusion k)
    split <;> simp [other]

theorem mem_excluded_first (items : List Json) :
    exclusion k ∈ (reachedFirst items).excluded ↔
      ∃ before item after, items = before ++ item :: after ∧
        (∀ i ∈ before, (reached i).targets = []) ∧ exclusion k ∈ (reached item).excluded := by
  induction items with
  | nil => simp [reachedFirst]
  | cons first rest ih =>
    unfold reachedFirst
    by_cases none : (reached first).targets = []
    · simp only [none, List.isEmpty_nil, if_true, List.mem_append, ih]
      constructor
      · rintro (here | ⟨before, item, after, rfl, bare, here⟩)
        · exact ⟨[], first, rest, rfl, by simp, here⟩
        · exact ⟨first :: before, item, after, rfl, by simpa [none] using bare, here⟩
      · rintro ⟨before, item, after, eq, bare, here⟩
        cases before with
        | nil =>
          obtain ⟨rfl, rfl⟩ := List.cons.inj eq
          exact .inl here
        | cons b before =>
          obtain ⟨rfl, rfl⟩ := List.cons.inj eq
          exact .inr ⟨before, item, after, rfl, fun i hi => bare i (.tail _ hi), here⟩
    · have some : (reached first).targets.isEmpty = false := by simpa using none
      simp only [some, Bool.false_eq_true, if_false]
      constructor
      · exact fun here => ⟨[], first, rest, rfl, by simp, here⟩
      · -- nothing behind the first item counts
        rintro ⟨before, item, after, eq, bare, here⟩
        cases before with
        | nil => exact (List.cons.inj eq).1 ▸ here
        | cons b before => exact absurd ((List.cons.inj eq).1 ▸ bare b (.head _)) none

theorem mem_excluded_field (found : Reached) (key : String) (value : Json) :
    exclusion k ∈ (reachedField found (key, value)).excluded ↔
      exclusion k ∈ found.excluded ∨ value = .null ∧ key = k ∨
        exclusion k ∈ (reached value).excluded := by
  cases value with
  | null => simp [reachedField, reached, exclusion, eq_comm]
  | _ => simp [reachedField, Reached.merge]

theorem mem_excluded_all (found : Reached) (fields : List (String × Json)) :
    exclusion k ∈ (reachedAll found fields).excluded ↔
      exclusion k ∈ found.excluded ∨
        ∃ f ∈ fields, f.2 = .null ∧ f.1 = k ∨ exclusion k ∈ (reached f.2).excluded := by
  induction fields generalizing found with
  | nil => simp [reachedAll]
  | cons f rest ih =>
    obtain ⟨key, value⟩ := f
    unfold reachedAll
    rw [ih, mem_excluded_field]
    simp only [List.mem_cons, exists_eq_or_imp, or_assoc]

/-- **What is left out of a value** is what is collected along with its targets. -/
theorem mem_excluded_reached (value : Json) :
    exclusion k ∈ (reached value).excluded ↔ LeavesOut value k := by
  induction value using Json.parts_induction with
  | null | bool | number =>
    refine iff_of_false (by simp [reached]) ?_
    rintro ⟨⟩
  | string s =>
    rw [mem_excluded_string]
    constructor
    · rintro rfl
      exact .text k
    · rintro ⟨⟩
      rfl
  | array items ih =>
    unfold reached
    rw [mem_excluded_first]
    constructor
    · rintro ⟨before, item, after, rfl, bare, here⟩
      exact .item bare ((ih item (by simp)).1 here)
    · rintro ⟨⟩
      next before after item bare part =>
      exact ⟨before, item, after, rfl, bare, (ih item (by simp)).2 part⟩
  | object fields ih =>
    unfold reached
    rw [mem_excluded_all, leavesOut_object_iff]
    constructor
    · rintro (none | ⟨f, listed, null | here⟩)
      · cases none
      · exact ⟨f, listed, .inl null⟩
      · exact ⟨f, listed, .inr ((ih f listed).1 here)⟩
    · rintro ⟨f, listed, null | part⟩
      · exact .inr ⟨f, listed, .inl null⟩
      · exact .inr ⟨f, listed, .inr ((ih f listed).2 part)⟩

instance (value : Json) (k : String) : Decidable (LeavesOut value k) :=
  decidable_of_iff _ (mem_excluded_reached value)

/-- What the subpaths leave out is what an object of them does. -/
theorem mem_left_subpathTargets (subs : List (String × Json)) :
    exclusion k ∈ (subpathTargets subs).2 ↔ LeavesOut (.object subs) k := by
  rw [leavesOut_object_iff]
  induction subs with
  | nil => simp [subpathTargets]
  | cons s rest ih =>
    obtain ⟨path, value⟩ := s
    simp only [List.mem_cons, exists_eq_or_imp]
    rw [← ih, ← mem_excluded_reached]
    cases value with
    | null => simp [subpathTargets, reached, exclusion, eq_comm]
    | _ => simp [subpathTargets]

theorem mem_excluded_entryPoints (m : Fields) :
    exclusion k ∈ (entryPoints m).excluded ↔
      LeavesOut (.object (subpaths (Json.field m "exports"))) k := by
  rw [← mem_left_subpathTargets]
  exact mem_foldl_insertNew.trans (by simp)

/-- A manifest has one more subpath than another one has, whose exports are subpaths too.  What
else is in the two manifests does not matter. -/
structure AddsSubpath (m m' : Fields) (path : String) (value : Json) : Prop where
  isPath : Text.startsIn path "." = true
  added : ∃ before after : List (String × Json),
    Json.field m "exports" = .object (before ++ after) ∧
    Json.field m' "exports" = .object (before ++ (path, value) :: after) ∧
    ∃ f ∈ before ++ after, Text.startsIn f.1 "." = true

variable {m m' : Fields} {path : String} {value : Json}

theorem subpaths_of_mem {fields : List (String × Json)} {f : String × Json} (hf : f ∈ fields)
    (dot : Text.startsIn f.1 "." = true) :
    subpaths (.object fields) = fields.filter fun f => Text.startsIn f.1 "." :=
  if_pos (List.any_eq_true.2 ⟨f, hf, dot⟩)

theorem AddsSubpath.subpaths (h : AddsSubpath m m' path value) :
    ∃ before after, subpaths (Json.field m "exports") = before ++ after ∧
      subpaths (Json.field m' "exports") = before ++ (path, value) :: after := by
  obtain ⟨before, after, old, new, f, hf, dot⟩ := h.added
  refine ⟨before.filter fun f => Text.startsIn f.1 ".", after.filter fun f => Text.startsIn f.1 ".",
    ?_, ?_⟩
  · rw [old, subpaths_of_mem hf dot, List.filter_append]
  · have here : (path, value) ∈ before ++ (path, value) :: after := by simp
    rw [new, subpaths_of_mem here h.isPath, List.filter_append, List.filter_cons, if_pos h.isPath]

/-- One more subpath adds what it leaves out to what is left out without it. -/
theorem AddsSubpath.mem_excluded (h : AddsSubpath m m' path value) :
    exclusion k ∈ (entryPoints m').excluded ↔
      exclusion k ∈ (entryPoints m).excluded ∨ LeavesOut (.object [(path, value)]) k := by
  obtain ⟨before, after, old, new⟩ := h.subpaths
  rw [mem_excluded_entryPoints, mem_excluded_entryPoints, old, new]
  simp only [leavesOut_object_iff, List.mem_append, List.mem_cons, List.not_mem_nil, or_false,
    or_and_right, exists_or, exists_eq_left]
  exact (or_congr_right or_comm).trans or_assoc.symm

end Manifest

open Manifest (LeavesOut AddsSubpath)

variable {m m' : Manifest.Fields} {root path relative : String} {value : Json} {g : Graph}

/-! ### The exports of a manifest -/

/-- The conditions of the subpaths of a manifest; those that are null have none. -/
theorem ExportsMap.exists_of_object {fields : List (String × Json)} (root : String)
    (object : Json.field m "exports" = .object fields) :
    ∃ map, ofManifest? m root = some map ∧ map.paths.flatMap ExportPath.conditions =
      (Manifest.subpaths (.object fields)).flatMap fun s => (pathOf root s.1 s.2).conditions := by
  unfold ofManifest?
  rw [object]
  refine ⟨_, if_neg (by simp [isNull]), ?_⟩
  dsimp only
  rw [List.flatMap_map]
  induction Manifest.subpaths (.object fields) with
  | nil => rfl
  | cons s rest ih =>
    obtain ⟨key, value⟩ := s
    cases value with
    | null => simpa [isNull, pathOf, Manifest.conditioned] using ih
    | _ => simpa [isNull] using ih

namespace Flow

/-- A condition is one for a file: it is not left out, and its target stands for the file. -/
def isUsed (excluded : List String) (relative : String) (c : ExportCondition) : Bool :=
  !excluded.contains (Manifest.exclusion c.condition) && Target.isFor c.target relative

/-- The conditions of a file are the names of those that are for it, each one once. -/
theorem conditionsOf_some (map : ExportsMap) (excluded : List String) (relative : String) :
    conditionsOf (some map) excluded relative =
      (((map.paths.flatMap ExportPath.conditions).filter (isUsed excluded relative)).map
        ExportCondition.condition).foldl insertNew [] := by
  unfold conditionsOf
  rw [List.foldl_map, List.foldl_filter]
  dsimp only
  congr 1
  funext found c
  unfold isUsed insertNew
  cases excluded.contains (Manifest.exclusion c.condition) <;>
    cases found.contains c.condition <;> cases Target.isFor c.target relative <;> rfl

/-- A subpath without a target for a file has no condition for it. -/
theorem filter_isUsed_pathOf {excluded : List String}
    (apart : ∀ c ∈ Manifest.conditioned "" value, Target.isFor c.2 relative = false) :
    (ExportsMap.pathOf root path value).conditions.filter (isUsed excluded relative) = [] := by
  rw [List.filter_eq_nil_iff]
  intro c hc
  obtain ⟨⟨condition, target⟩, given, rfl⟩ := List.mem_map.1 hc
  simp [isUsed, apart _ given]

/-- A condition is still one for a file with one more subpath unless that leaves it out. -/
theorem isUsed_addsSubpath (more : AddsSubpath m m' path value) :
    isUsed (Manifest.entryPoints m').excluded relative = fun c =>
      !decide (LeavesOut (.object [(path, value)]) c.condition) &&
        isUsed (Manifest.entryPoints m).excluded relative c := by
  funext c
  rw [Bool.eq_iff_iff]
  simp only [isUsed, Bool.and_eq_true, Bool.not_eq_true', ← Bool.not_eq_true,
    List.contains_iff_mem, more.mem_excluded, not_or, decide_eq_true_iff]
  exact and_assoc.trans and_left_comm

/-- **One more subpath thins the conditions of a file** that it has no target for. -/
theorem conditionsOf_addsSubpath (more : AddsSubpath m m' path value)
    (apart : ∀ c ∈ Manifest.conditioned "" value, Target.isFor c.2 relative = false) :
    conditionsOf ((ExportsMap.ofManifest? m' root).map fun map => map.withGraph g)
        (Manifest.entryPoints m').excluded relative =
      (conditionsOf ((ExportsMap.ofManifest? m root).map fun map => map.withGraph g)
        (Manifest.entryPoints m).excluded relative).filter fun k =>
          !decide (LeavesOut (.object [(path, value)]) k) := by
  obtain ⟨_, _, old, new, -⟩ := more.added
  obtain ⟨map, isMap, conditions⟩ := ExportsMap.exists_of_object root old
  obtain ⟨map', isMap', conditions'⟩ := ExportsMap.exists_of_object root new
  obtain ⟨before, after, subs, subs'⟩ := more.subpaths
  rw [← old, subs] at conditions
  rw [← new, subs'] at conditions'
  -- what is for the file comes from the subpaths that both have
  have same : (map'.paths.flatMap ExportPath.conditions).filter
        (isUsed (Manifest.entryPoints m').excluded relative) =
      (map.paths.flatMap ExportPath.conditions).filter
        (isUsed (Manifest.entryPoints m').excluded relative) := by
    rw [conditions, conditions']
    simp only [List.flatMap_append, List.flatMap_cons, List.filter_append,
      filter_isUsed_pathOf apart, List.nil_append]
  rw [isMap, isMap', Option.map_some, Option.map_some, conditionsOf_some, conditionsOf_some]
  unfold ExportsMap.withGraph
  dsimp only
  rw [same, isUsed_addsSubpath more, filter_foldl_insertNew, List.filter_map, List.filter_filter]
  rfl

/-! ### The flows -/

/-- The flow with some of its conditions only. -/
def restrict (keep : String → Bool) (f : Flow) : Flow :=
  { f with conditions := f.conditions.filter keep }

variable {keep : String → Bool}

theorem restrict_eq_self_iff {f : Flow} :
    f.restrict keep = f ↔ ∀ k ∈ f.conditions, keep k = true := by
  rw [← List.filter_eq_self]
  constructor
  · exact congrArg Flow.conditions
  · intro same
    unfold restrict
    rw [same]

/-- A way knows nothing of conditions; they come with the entries. -/
theorem conditions_traceFrom (g : Graph) (visited : List String) (path name : String) :
    (traceFrom g visited path name).conditions = [] := by
  fun_induction traceFrom g visited path name
  case case7 ih => exact ih
  all_goals rfl

theorem conditions_ofEntry (g : Graph) (n : Node) (name : String) :
    (ofEntry g n name).conditions = [] := conditions_traceFrom g [] n.path name

theorem restrict_ofEntry (g : Graph) (n : Node) (name : String) :
    (ofEntry g n name).restrict keep = ofEntry g n name := by
  rw [restrict_eq_self_iff, conditions_ofEntry]
  simp

theorem restrict_publish (n : Node) (conditions : List String) (f : Flow) :
    (publish n conditions f).restrict keep =
      publish n (conditions.filter keep) (f.restrict keep) := by
  unfold restrict publish
  dsimp only
  rw [filter_foldl_insertNew]

/-- The flows with some of their conditions only. -/
def restrictAll (keep : String → Bool) (flows : List (String × Flow)) : List (String × Flow) :=
  flows.map fun f => (f.1, f.2.restrict keep)

/-- One more export of an entry, seen under some conditions only. -/
theorem restrictAll_addExport (g : Graph) (n : Node) (conditions : List String)
    (flows : List (String × Flow)) (e : Export) :
    restrictAll keep (addExport g n conditions flows e) =
      addExport g n (conditions.filter keep) (restrictAll keep flows) e := by
  have known : (restrictAll keep flows).any (fun f => f.1 == e.name) =
      flows.any fun f => f.1 == e.name := List.any_map
  unfold addExport
  rw [known]
  split
  · unfold restrictAll
    rw [List.map_map, List.map_map]
    refine List.map_congr_left fun f _ => ?_
    by_cases same : f.1 = e.name <;> simp [same, restrict_publish]
  · simp [restrictAll, restrict_publish, restrict_ofEntry]

theorem restrictAll_addExports (g : Graph) (n : Node) (conditions : List String)
    (es : List Export) (flows : List (String × Flow)) :
    restrictAll keep (es.foldl (addExport g n conditions) flows) =
      es.foldl (addExport g n (conditions.filter keep)) (restrictAll keep flows) := by
  induction es generalizing flows with
  | nil => rfl
  | cons e es ih => rw [List.foldl_cons, List.foldl_cons, ih, restrictAll_addExport]

/-- Entry after entry, where the conditions of each are thinned in one way. -/
theorem restrictAll_addEntries {cs cs' : String → List String} {ns : List Node}
    (thinned : ∀ n ∈ ns, cs' n.relative = (cs n.relative).filter keep)
    (flows : List (String × Flow)) :
    restrictAll keep
        (ns.foldl (fun flows n => n.exports.foldl (addExport g n (cs n.relative)) flows) flows) =
      ns.foldl (fun flows n => n.exports.foldl (addExport g n (cs' n.relative)) flows)
        (restrictAll keep flows) := by
  induction ns generalizing flows with
  | nil => rfl
  | cons n ns ih =>
    rw [List.foldl_cons, List.foldl_cons, ih fun k hk => thinned k (.tail _ hk),
      restrictAll_addExports, thinned n (.head _)]

/-- **Flows see a change of conditions as it is**: where the conditions of each entry are
thinned in one way, so are those of all flows, and nothing else changes. -/
theorem all_restrict {entries : List String} {map map' : Option ExportsMap}
    {excluded excluded' : List String}
    (thinned : ∀ p ∈ entryFiles g entries, ∀ n, g.node? p = some n →
      conditionsOf map' excluded' n.relative = (conditionsOf map excluded n.relative).filter keep) :
    all g entries map' excluded' = restrictAll keep (all g entries map excluded) := by
  symm
  refine restrictAll_addEntries (fun n hn => ?_) []
  obtain ⟨p, hp, node⟩ := List.mem_filterMap.1 hn
  exact thinned p hp n node

theorem restrictAll_eq_self_iff {flows : List (String × Flow)} :
    restrictAll keep flows = flows ↔ ∀ f ∈ flows, ∀ k ∈ f.2.conditions, keep k = true := by
  have same : restrictAll keep flows = flows ↔
      ∀ f ∈ flows, (f.1, f.2.restrict keep) = id f := by
    rw [← List.map_inj_left, List.map_id]
    rfl
  rw [same]
  refine forall₂_congr fun f _ => ?_
  rw [id, Prod.ext_iff, ← restrict_eq_self_iff]
  exact ⟨And.right, fun h => ⟨rfl, h⟩⟩

/-- The flows of a graph under the exports of a manifest. -/
def under (g : Graph) (entries : List String) (root : String) (m : Manifest.Fields) :
    List (String × Flow) :=
  all g entries ((ExportsMap.ofManifest? m root).map fun map => map.withGraph g)
    (Manifest.entryPoints m).excluded

/-- **Another subpath takes away what it leaves out.**  Of the targets of one more subpath none
stands for an entry.  Then every flow is what it was, less the conditions that the subpath
leaves out; so the flows are the same exactly if it leaves out none of theirs. -/
theorem flows_with_subpath (g : Graph) (entries : List String) (root : String)
    (more : AddsSubpath m m' path value)
    (apart : ∀ c ∈ Manifest.conditioned "" value, ∀ p ∈ entryFiles g entries,
      ∀ n, g.node? p = some n → Target.isFor c.2 n.relative = false) :
    under g entries root m' =
        restrictAll (fun k => !decide (LeavesOut (.object [(path, value)]) k))
          (under g entries root m) ∧
      (under g entries root m' = under g entries root m ↔
        ∀ f ∈ under g entries root m, ∀ k ∈ f.2.conditions,
          ¬ LeavesOut (.object [(path, value)]) k) := by
  have thinned : under g entries root m' =
      restrictAll (fun k => !decide (LeavesOut (.object [(path, value)]) k))
        (under g entries root m) :=
    all_restrict fun p hp n node =>
      conditionsOf_addsSubpath more fun c hc => apart c hc p hp n node
  refine ⟨thinned, ?_⟩
  rw [thinned, restrictAll_eq_self_iff]
  simp only [Bool.not_eq_true', decide_eq_false_iff_not]

/-! ### A subpath that takes a condition away -/

/-- One file, which exports one name. -/
def lone : Graph where
  root := "/p"
  nodes :=
    [{ path := "/p/src/index.ts", relative := "src/index.ts", exports := [{ name := "api" }] }]

/-- The file is used under two conditions. -/
def twoConditions : String × Json :=
  (".", .object [("import", .string "./src/index.ts"), ("default", .string "./src/index.ts")])

/-- One of the conditions is left out, and under the other one is another file. -/
def withoutImport : Json := .object [("import", .null), ("default", .string "./src/x.ts")]

def onlyTwo : Manifest.Fields := [("exports", .object [twoConditions])]

def twoAndMore : Manifest.Fields := [("exports", .object [twoConditions, ("./x", withoutImport)])]

theorem addsSubpath_twoAndMore : AddsSubpath onlyTwo twoAndMore "./x" withoutImport :=
  ⟨by decide, [twoConditions], [], rfl, rfl, twoConditions, by simp, by decide⟩

theorem apart_withoutImport : ∀ c ∈ Manifest.conditioned "" withoutImport,
    ∀ p ∈ entryFiles lone ["/p/src/index.ts"], ∀ n, lone.node? p = some n →
      Target.isFor c.2 n.relative = false := by
  have conditions : Manifest.conditioned "" withoutImport = [("default", "./src/x.ts")] := by
    decide +kernel
  rw [conditions]
  intro c hc p _ n node
  obtain rfl := List.mem_singleton.1 hc
  obtain rfl := List.mem_singleton.1 (List.mem_of_find?_eq_some node)
  decide +kernel

theorem flows_with_subpath_withoutImport :
    AddsSubpath onlyTwo twoAndMore "./x" withoutImport ∧
      (∀ c ∈ Manifest.conditioned "" withoutImport, ∀ p ∈ entryFiles lone ["/p/src/index.ts"],
        ∀ n, lone.node? p = some n → Target.isFor c.2 n.relative = false) ∧
      under lone ["/p/src/index.ts"] "/p" twoAndMore =
        restrictAll (fun k => !decide (LeavesOut (.object [("./x", withoutImport)]) k))
          (under lone ["/p/src/index.ts"] "/p" onlyTwo) :=
  ⟨addsSubpath_twoAndMore, apart_withoutImport,
    (flows_with_subpath lone ["/p/src/index.ts"] "/p" addsSubpath_twoAndMore
      apart_withoutImport).1⟩

theorem conditions_under_lone (m : Manifest.Fields) :
    (under lone ["/p/src/index.ts"] "/p" m).map (fun f => f.2.conditions) =
      [(conditionsOf ((ExportsMap.ofManifest? m "/p").map fun map => map.withGraph lone)
        (Manifest.entryPoints m).excluded "src/index.ts").foldl insertNew []] := by
  have nodes : (entryFiles lone ["/p/src/index.ts"]).filterMap lone.node? = lone.nodes := by
    decide +kernel
  unfold under all
  rw [nodes]
  simp [lone, addExport, publish, conditions_ofEntry]

/-- The subpath has no target for the file, and yet a condition of what the file exports goes
with it: the null value stands under the name of that condition. -/
theorem null_elsewhere_drops_condition :
    AddsSubpath onlyTwo twoAndMore "./x" withoutImport ∧
      (∀ c ∈ Manifest.conditioned "" withoutImport, ∀ p ∈ entryFiles lone ["/p/src/index.ts"],
        ∀ n, lone.node? p = some n → Target.isFor c.2 n.relative = false) ∧
      (under lone ["/p/src/index.ts"] "/p" onlyTwo).map (fun f => f.2.conditions) =
        [["import", "default"]] ∧
      (under lone ["/p/src/index.ts"] "/p" twoAndMore).map (fun f => f.2.conditions) =
        [["default"]] := by
  refine ⟨addsSubpath_twoAndMore, apart_withoutImport, ?_, ?_⟩
  · rw [conditions_under_lone]
    decide +kernel
  · rw [conditions_under_lone]
    decide +kernel

end Flow

end ModuleAtlas
