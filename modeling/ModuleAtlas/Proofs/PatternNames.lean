/-
ModuleAtlas/Proofs/PatternNames.lean

The names that a declaration with patterns exports.

A pattern binds names, and it has parts that bind none: default values, and members of values.
`Tree.binders` and `Tree.asides` tell them apart, form by form.  `boundNames`, which the exports
go by, makes no such difference and walks through all of it, except for the keys of properties.
So a declaration exports what its patterns bind, in reading order, and between that every name
that one of the other parts mentions (`binders_sublist`, `boundNames_perm`).

Main result: `names_of_patterns`.
-/
import Mathlib.Data.List.Flatten
import ModuleAtlas.Proofs.ScriptRecords

namespace ModuleAtlas.Script

open List (Sublist Perm)

/-! ### The parts of a pattern -/

mutual

/-- The names that a pattern binds, in reading order. -/
def Tree.binders : Tree → List String
  | .name text => [text]
  | .shorthand text => [text]
  | .fields properties => bindersOf properties
  | .rename _ _ value => value.binders
  | .defaulted target _ => target.binders
  | .group parts => bindersOf parts
  | _ => []

/-- The names that some patterns bind. -/
def bindersOf : List Tree → List String
  | [] => []
  | t :: rest => t.binders ++ bindersOf rest

end

mutual

/-- The parts of a pattern that bind nothing, keys apart: default values and members of values.
A tree that is no pattern is such a part as a whole. -/
def Tree.asides : Tree → List Tree
  | .name _ => []
  | .shorthand _ => []
  | .fields properties => asidesOf properties
  | .rename _ _ value => value.asides
  | .defaulted target value => target.asides ++ [value]
  | .group parts => asidesOf parts
  | t => [t]

/-- The parts of some patterns that bind nothing. -/
def asidesOf : List Tree → List Tree
  | [] => []
  | t :: rest => t.asides ++ asidesOf rest

end

/-! ### What is walked through -/

mutual

-- Only the forms of a pattern bind names; of the others there is nothing to say.

/-- The names that a pattern binds are met in their order. -/
theorem binders_sublist : (t : Tree) → Sublist t.binders (boundNames t)
  | .name _ | .shorthand _ => by simp [Tree.binders, boundNames]
  | .fields parts | .group parts => by
    rw [Tree.binders, boundNames]
    exact bindersOf_sublist parts
  | .rename _ _ value => by
    rw [Tree.binders, boundNames]
    exact binders_sublist value
  | .defaulted target value => by
    rw [Tree.binders, boundNames]
    exact (binders_sublist target).trans (List.sublist_append_left _ _)
  | .quoted _ | .remark | .loader | .call .. | .reference _ | .declarator .. | .function ..
  | .classValue .. | .declaration .. | .variableList .. | .ambient _ | .importing ..
  | .exportDeclaration .. | .exportValue .. | .exportFrom .. | .exportNames _
  | .exportOther _ => by simp [Tree.binders]

theorem bindersOf_sublist : (ts : List Tree) → Sublist (bindersOf ts) (boundNamesOf ts)
  | [] => by simp [bindersOf]
  | t :: rest => by
    rw [bindersOf, boundNamesOf]
    exact (binders_sublist t).append (bindersOf_sublist rest)

end

mutual

/-- What is met in a pattern is what it binds and what its other parts mention. -/
theorem boundNames_perm :
    (t : Tree) → Perm (boundNames t) (t.binders ++ t.asides.flatMap boundNames)
  | .name _ | .shorthand _ => by simp [Tree.binders, Tree.asides, boundNames]
  | .fields parts | .group parts => by
    rw [Tree.binders, Tree.asides, boundNames]
    exact boundNamesOf_perm parts
  | .rename _ _ value => by
    rw [Tree.binders, Tree.asides, boundNames]
    exact boundNames_perm value
  | .defaulted target value => by
    rw [Tree.binders, Tree.asides, boundNames, List.flatMap_append, ← List.append_assoc]
    simpa using (boundNames_perm target).append_right (boundNames value)
  | .quoted _ | .remark | .loader | .call .. | .reference _ | .declarator .. | .function ..
  | .classValue .. | .declaration .. | .variableList .. | .ambient _ | .importing ..
  | .exportDeclaration .. | .exportValue .. | .exportFrom .. | .exportNames _
  | .exportOther _ => by simp [Tree.binders, Tree.asides]

theorem boundNamesOf_perm :
    (ts : List Tree) → Perm (boundNamesOf ts) (bindersOf ts ++ (asidesOf ts).flatMap boundNames)
  | [] => by simp [boundNamesOf, bindersOf, asidesOf]
  | t :: rest => by
    rw [boundNamesOf, bindersOf, asidesOf, List.flatMap_append]
    refine ((boundNames_perm t).append (boundNamesOf_perm rest)).trans ?_
    simp only [List.append_assoc]
    exact (List.perm_append_comm_assoc _ _ _).append_left _

end

/-! ### Declarations -/

/-- What one variable of a declaration binds. -/
def Tree.target? : Tree → Option Tree
  | .declarator _ target _ _ => some target
  | _ => none

/-- What the variables of a declaration bind. -/
def targets (declarators : List Tree) : List Tree := declarators.filterMap Tree.target?

theorem map_name_declaredByVariable (constant : Bool) (t : Tree) :
    (declaredByVariable constant t).map Declared.name = t.target?.toList.flatMap boundNames := by
  unfold declaredByVariable
  split
  · simp [Tree.target?, Function.comp_def]
  · simp [Tree.target?, Function.comp_def]
  · next other =>
    cases t with
    | declarator pos target typing value => exact absurd rfl (other pos target typing value)
    | _ => rfl

/-- The names that a declaration of variables exports are those met in what they bind. -/
theorem map_name_exportsOf (s : Scope) (decorators : List Tree) (constant : Bool)
    (declarators : List Tree) :
    (exportsOf s (.exportDeclaration false decorators (.variableList constant declarators))).map
      Export.name = boundNamesOf (targets declarators) := by
  show ((declarators.flatMap (declaredByVariable constant)).map (exportOfDeclared false)).map
    Export.name = _
  have name : Export.name ∘ exportOfDeclared false = Declared.name := rfl
  rw [List.map_map, name]
  induction declarators with
  | nil => simp [targets, boundNamesOf]
  | cons t rest ih =>
    rw [List.flatMap_cons, List.map_append, map_name_declaredByVariable, ih]
    unfold targets
    cases found : t.target? with
    | none => simp [List.filterMap_cons_none found]
    | some target => simp [List.filterMap_cons_some found, boundNamesOf]

/-! ### Names of a script -/

section

variable {s : Scope} {x : String}

/-- A further head of a function is not added, but its name is there. -/
theorem mem_names_addExport {found : List Export} {e : Export} :
    x ∈ (addExport found e).map Export.name ↔ x ∈ found.map Export.name ∨ x = e.name := by
  unfold addExport
  split
  · next overload =>
    simp only [isOverload, Bool.and_eq_true, List.any_eq_true, beq_iff_eq] at overload
    obtain ⟨-, o, ho, same, -⟩ := overload
    constructor
    · exact .inl
    · rintro (h | rfl)
      · exact h
      · exact List.mem_map.2 ⟨o, ho, same⟩
  · simp

theorem mem_names_foldl_addExport {new found : List Export} :
    x ∈ (new.foldl addExport found).map Export.name ↔
      x ∈ found.map Export.name ∨ x ∈ new.map Export.name := by
  induction new generalizing found with
  | nil => simp
  | cons e new ih =>
    rw [List.foldl_cons, ih, mem_names_addExport, List.map_cons, List.mem_cons, or_assoc]

/-- The names that a script exports are those that its statements export. -/
theorem mem_names_exportsFrom {found : List Export} {doc : Doc} {items : List Item} :
    x ∈ (exportsFrom s found doc items).map Export.name ↔
      x ∈ found.map Export.name ∨ ∃ t ∈ statements items, x ∈ (exportsOf s t).map Export.name := by
  fun_induction exportsFrom s found doc items with
  | case1 => simp [statements]
  | case2 found doc text rest ih => simpa only [statements] using ih
  | case3 found doc t rest ih =>
    have names : ((exportsOf s t).map (withDoc doc)).map Export.name
        = (exportsOf s t).map Export.name := by
      simp [withDoc, Function.comp_def]
    rw [ih, mem_names_foldl_addExport, names, or_assoc]
    simp only [statements, List.mem_cons, exists_eq_or_imp]

end

theorem mem_statements {items : List Item} {t : Tree} (h : .statement t ∈ items) :
    t ∈ statements items := by
  induction items with
  | nil => cases h
  | cons i items ih =>
    cases i with
    | comment text =>
      exact ih ((List.mem_cons.1 h).resolve_left nofun)
    | statement u =>
      rcases List.mem_cons.1 h with here | later
      · obtain rfl := Item.statement.inj here
        exact List.mem_cons_self
      · exact List.mem_cons_of_mem _ (ih later)

/-- **The names of a declaration with patterns.**  Where a script exports a declaration of
variables, the names that their patterns bind are exported in reading order, and with them, each
at its place, all names that the default values in the patterns mention.  So exactly what the
patterns bind is exported if and only if no default value mentions a name; the script exports
all of them. -/
theorem names_of_patterns {items : List Item} {decorators declarators : List Tree}
    {constant : Bool} (s : Scope) (lineCount : Nat)
    (here : .statement
      (.exportDeclaration false decorators (.variableList constant declarators)) ∈ items) :
    let names := (exportsOf s
      (.exportDeclaration false decorators (.variableList constant declarators))).map Export.name
    let bound := bindersOf (targets declarators)
    let mentioned := (asidesOf (targets declarators)).flatMap boundNames
    Sublist bound names ∧ Perm names (bound ++ mentioned) ∧
      (names = bound ↔ ∀ e ∈ asidesOf (targets declarators), boundNames e = []) ∧
      ∀ x ∈ bound ++ mentioned, x ∈ (recordOf items lineCount).exports.map Export.name := by
  intro names bound mentioned
  have all : names = boundNamesOf (targets declarators) := map_name_exportsOf s _ _ _
  have perm : Perm names (bound ++ mentioned) := all ▸ boundNamesOf_perm _
  refine ⟨all ▸ bindersOf_sublist _, perm, ?_, ?_⟩
  · rw [← List.flatMap_eq_nil_iff]
    constructor
    · intro same
      -- there is room for the names that are bound and for no others
      have length := perm.length_eq
      rw [same, List.length_append] at length
      have spare : mentioned.length = 0 := by omega
      exact List.length_eq_zero_iff.1 spare
    · intro none
      have room : names.length = bound.length := by
        rw [perm.length_eq, show mentioned = [] from none, List.append_nil]
      have sub : Sublist bound names := all ▸ bindersOf_sublist _
      exact (sub.eq_of_length room.symm).symm
  · intro x hx
    refine mem_names_exportsFrom.2 (.inr ⟨_, mem_statements here, ?_⟩)
    rw [map_name_exportsOf, ← all]
    exact perm.mem_iff.2 hx

/-- The declaration in `export const [a = b] = o`. -/
def defaultedExport : Tree :=
  .exportDeclaration false []
    (.variableList true
      [.declarator ⟨1, 14⟩ (.group [.defaulted (.name "a") (.name "b")]) [] (some (.name "o"))])

/-- A name that only a default value mentions is exported, by the tree and by the text. -/
theorem names_of_patterns_default :
    .statement defaultedExport ∈ [Item.statement defaultedExport] ∧
      (exportsOf {} defaultedExport).map Export.name = ["a", "b"] ∧
      "b" ∈ (recordOf [.statement defaultedExport] 1).exports.map Export.name ∧
      ((Source.recordOf "m.ts" "export const [a = b] = o".toList).toOption.map
        fun r => r.exports.map Export.name) = some ["a", "b"] := by
  have here : .statement defaultedExport ∈ [Item.statement defaultedExport] :=
    List.mem_singleton.2 rfl
  obtain ⟨-, -, -, exported⟩ := names_of_patterns {} 1 here
  exact ⟨here, rfl, exported "b" (by decide), by decide +kernel⟩

end ModuleAtlas.Script
