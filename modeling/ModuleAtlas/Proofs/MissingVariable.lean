/-
ModuleAtlas/Proofs/MissingVariable.lean

Trees from which a variable is left out.

`Lacks` relates a tree to the same tree without one variable of a declaration somewhere in it.
Calls of the loader are looked for in the whole tree, so the bindings of the variable are missing,
and nothing else is (`Lacks.splices`): what stands around the variable binds the same without it,
for neither the loader nor a specifier nor a property that is taken has a declaration inside.

`Nested` does the same for a statement and a variable that is declared further inside it.  What the
statement declares itself is not affected (`Nested.declaredAtTop`), nor is what it exports in a
given scope (`Nested.exportsOf`).
-/
import ModuleAtlas.Proofs.ScriptRecords

namespace ModuleAtlas.Script

variable {d t t' : Tree}

/-! ### Trees without a variable -/

/-- The second tree is the first one without one variable of a declaration somewhere in it. -/
inductive Lacks (d : Tree) : Tree → Tree → Prop
  | here (constant : Bool) (a b : List Tree) :
      Lacks d (.variableList constant (a ++ d :: b)) (.variableList constant (a ++ b))
  | inLoop (a b : List Tree) : Lacks d (.group (a ++ d :: b)) (.group (a ++ b))
  | callee {t t' : Tree} (pos : Position) (types args : List Tree) (inner : Lacks d t t') :
      Lacks d (.call pos t types args) (.call pos t' types args)
  | typeArgument {t t' : Tree} (pos : Position) (f : Tree) (a b args : List Tree)
      (inner : Lacks d t t') :
      Lacks d (.call pos f (a ++ t :: b) args) (.call pos f (a ++ t' :: b) args)
  | argument {t t' : Tree} (pos : Position) (f : Tree) (types a b : List Tree)
      (inner : Lacks d t t') :
      Lacks d (.call pos f types (a ++ t :: b)) (.call pos f types (a ++ t' :: b))
  | property {t t' : Tree} (a b : List Tree) (inner : Lacks d t t') :
      Lacks d (.fields (a ++ t :: b)) (.fields (a ++ t' :: b))
  | key {t t' : Tree} (k : String) (a b : List Tree) (u : Tree) (inner : Lacks d t t') :
      Lacks d (.rename k (a ++ t :: b) u) (.rename k (a ++ t' :: b) u)
  | renamed {t t' : Tree} (k : String) (inside : List Tree) (inner : Lacks d t t') :
      Lacks d (.rename k inside t) (.rename k inside t')
  | defaulted {t t' : Tree} (u : Tree) (inner : Lacks d t t') :
      Lacks d (.defaulted t u) (.defaulted t' u)
  | default {t t' : Tree} (u : Tree) (inner : Lacks d t t') :
      Lacks d (.defaulted u t) (.defaulted u t')
  | reference {t t' : Tree} (a b : List Tree) (inner : Lacks d t t') :
      Lacks d (.reference (a ++ t :: b)) (.reference (a ++ t' :: b))
  | target {t t' : Tree} (pos : Position) (typing : List Tree) (value : Option Tree)
      (inner : Lacks d t t') :
      Lacks d (.declarator pos t typing value) (.declarator pos t' typing value)
  | typing {t t' : Tree} (pos : Position) (u : Tree) (a b : List Tree) (value : Option Tree)
      (inner : Lacks d t t') :
      Lacks d (.declarator pos u (a ++ t :: b) value) (.declarator pos u (a ++ t' :: b) value)
  | value {t t' : Tree} (pos : Position) (u : Tree) (typing : List Tree) (inner : Lacks d t t') :
      Lacks d (.declarator pos u typing (some t)) (.declarator pos u typing (some t'))
  | function {t t' : Tree} (pos : Position) (signature : String) (a b : List Tree)
      (inner : Lacks d t t') :
      Lacks d (.function pos signature (a ++ t :: b)) (.function pos signature (a ++ t' :: b))
  | classValue {t t' : Tree} (members : List Member) (a b : List Tree) (inner : Lacks d t t') :
      Lacks d (.classValue members (a ++ t :: b)) (.classValue members (a ++ t' :: b))
  | group {t t' : Tree} (a b : List Tree) (inner : Lacks d t t') :
      Lacks d (.group (a ++ t :: b)) (.group (a ++ t' :: b))
  | declaration {t t' : Tree} (declared : Declared) (a b : List Tree) (inner : Lacks d t t') :
      Lacks d (.declaration declared (a ++ t :: b)) (.declaration declared (a ++ t' :: b))
  | declarator {t t' : Tree} (constant : Bool) (a b : List Tree) (inner : Lacks d t t') :
      Lacks d (.variableList constant (a ++ t :: b)) (.variableList constant (a ++ t' :: b))
  | ambient {t t' : Tree} (inner : Lacks d t t') : Lacks d (.ambient t) (.ambient t')
  | inImport {t t' : Tree} (pos : Position) (typeOnly : Bool) (parts : List ImportPart)
      (specifier : String) (a b : List Tree) (inner : Lacks d t t') :
      Lacks d (.importing pos typeOnly parts specifier (a ++ t :: b))
        (.importing pos typeOnly parts specifier (a ++ t' :: b))
  | decorator {t t' : Tree} (isDefault : Bool) (a b : List Tree) (u : Tree)
      (inner : Lacks d t t') :
      Lacks d (.exportDeclaration isDefault (a ++ t :: b) u)
        (.exportDeclaration isDefault (a ++ t' :: b) u)
  | exported {t t' : Tree} (isDefault : Bool) (decorators : List Tree) (inner : Lacks d t t') :
      Lacks d (.exportDeclaration isDefault decorators t)
        (.exportDeclaration isDefault decorators t')
  | valueDecorator {t t' : Tree} (pos : Position) (a b : List Tree) (u : Tree)
      (inner : Lacks d t t') :
      Lacks d (.exportValue pos (a ++ t :: b) u) (.exportValue pos (a ++ t' :: b) u)
  | exportedValue {t t' : Tree} (pos : Position) (decorators : List Tree)
      (inner : Lacks d t t') :
      Lacks d (.exportValue pos decorators t) (.exportValue pos decorators t')
  | exportOther {t t' : Tree} (a b : List Tree) (inner : Lacks d t t') :
      Lacks d (.exportOther (a ++ t :: b)) (.exportOther (a ++ t' :: b))

/-! ### Calls without a variable -/

/-- What has a variable in it is not the loader. -/
theorem Lacks.loaderOf? (h : Lacks d t t') : loaderOf? t = none ∧ loaderOf? t' = none := by
  cases h <;> exact ⟨rfl, rfl⟩

theorem ofCall_of_loaderOf? {f : Tree} (none : loaderOf? f = none) (holder : Option Tree)
    (pos : Position) (args : List Tree) : Found.ofCall holder pos f args = {} := by
  unfold Found.ofCall
  rw [none]

/-- What has a variable in it is no specifier, so the argument of a call can be left out. -/
theorem Lacks.ofCall (h : Lacks d t t') (holder : Option Tree) (pos : Position) (f : Tree)
    (a b : List Tree) :
    Found.ofCall holder pos f (a ++ t :: b) = Found.ofCall holder pos f (a ++ t' :: b) := by
  unfold Found.ofCall
  cases a with
  | nil => rcases Script.loaderOf? f with - | - | - <;> cases h <;> rfl
  | cons x a => rcases Script.loaderOf? f with - | - | - <;> cases x <;> rfl

theorem takenBy_append (specifier : String) (a b : List Tree) :
    takenBy specifier (a ++ b) = takenBy specifier a ++ takenBy specifier b := by
  fun_induction takenBy specifier a with
  | case1 => rfl
  | case2 name rest ih => simp [takenBy, ih]
  | case3 key inside binds rest ih => simp [takenBy, ih]
  | case4 key inside value rest other ih => simp [takenBy, ih]
  | case5 u rest _ _ _ ih => simp_all [takenBy]

/-- A property of a pattern takes and binds the same without a variable inside it. -/
theorem Lacks.takenBy (h : Lacks d t t') (specifier : String) :
    takenBy specifier [t] = takenBy specifier [t'] := by
  cases h with
  | renamed k inside inner => cases inner <;> rfl
  | key k a b u => cases u <;> rfl
  | _ => rfl

theorem Lacks.takenInto (h : Lacks d t t') (specifier : String) :
    takenInto specifier (some t) = takenInto specifier (some t') := by
  cases h with
  | @property t t' a b inner =>
    have same : Script.takenBy specifier (a ++ t :: b) = Script.takenBy specifier (a ++ t' :: b) := by
      rw [List.append_cons a t, List.append_cons a t', takenBy_append, takenBy_append,
        takenBy_append, takenBy_append, inner.takenBy]
    simp only [Script.takenInto, same]
  | _ => rfl

theorem ofCall_congr {holder holder' : Option Tree}
    (same : ∀ specifier, takenInto specifier holder = takenInto specifier holder')
    (pos : Position) (f : Tree) (args : List Tree) :
    Found.ofCall holder pos f args = Found.ofCall holder' pos f args := by
  unfold Found.ofCall
  simp only [same]

theorem ofTree_congr {holder holder' : Option Tree}
    (same : ∀ specifier, takenInto specifier holder = takenInto specifier holder') (t : Tree) :
    Found.ofTree holder t = Found.ofTree holder' t := by
  cases t with
  | call pos f types args => rw [Found.ofTree, Found.ofTree, ofCall_congr same]
  | _ => simp only [Found.ofTree]

/-- What a variable gets from its value is the same without a variable inside its pattern. -/
theorem Lacks.ofValue (h : Lacks d t t') (value : Option Tree) :
    Found.ofValue t value = Found.ofValue t' value := by
  cases value with
  | none => simp only [Found.ofValue]
  | some v =>
    simp only [Found.ofValue]
    exact ofTree_congr h.takenInto v

/-! ### Bindings without a variable -/

/-- The second list is the first one without a row in it. -/
def Splices (row xs ys : List Binding) : Prop := ∃ a b, xs = a ++ row ++ b ∧ ys = a ++ b

section Splices

variable {row xs ys : List Binding}

theorem Splices.before (zs : List Binding) (h : Splices row xs ys) :
    Splices row (zs ++ xs) (zs ++ ys) := by
  obtain ⟨a, b, rfl, rfl⟩ := h
  exact ⟨zs ++ a, b, by simp, by simp⟩

theorem Splices.behind (zs : List Binding) (h : Splices row xs ys) :
    Splices row (xs ++ zs) (ys ++ zs) := by
  obtain ⟨a, b, rfl, rfl⟩ := h
  exact ⟨a, b ++ zs, by simp, by simp⟩

end Splices

/-- What the calls in a tree bind. -/
def boundBy (holder : Option Tree) (t : Tree) : List Binding := (Found.ofTree holder t).bindings

/-- What the calls in some trees bind. -/
def boundByAll (ts : List Tree) : List Binding := (Found.ofTrees ts).bindings

theorem boundByAll_cons (t : Tree) (ts : List Tree) :
    boundByAll (t :: ts) = boundBy none t ++ boundByAll ts := by
  unfold boundByAll boundBy
  rw [Found.ofTrees]
  rfl

theorem boundByAll_append (a b : List Tree) :
    boundByAll (a ++ b) = boundByAll a ++ boundByAll b := by
  induction a with
  | nil =>
    show boundByAll b = (Found.ofTrees []).bindings ++ boundByAll b
    rw [Found.ofTrees]
    rfl
  | cons t a ih => rw [List.cons_append, boundByAll_cons, boundByAll_cons, ih, List.append_assoc]

theorem Splices.among {row : List Binding} (h : Splices row (boundBy none t) (boundBy none t'))
    (a b : List Tree) : Splices row (boundByAll (a ++ t :: b)) (boundByAll (a ++ t' :: b)) := by
  rw [boundByAll_append, boundByAll_append, boundByAll_cons, boundByAll_cons]
  exact (h.behind _).before _

/-- A variable that is missing takes its own bindings with it. -/
theorem splices_of_mem (d : Tree) (a b : List Tree) :
    Splices (boundBy none d) (boundByAll (a ++ d :: b)) (boundByAll (a ++ b)) := by
  refine ⟨boundByAll a, boundByAll b, ?_, boundByAll_append a b⟩
  rw [boundByAll_append, boundByAll_cons, List.append_assoc]

/-- **What a missing variable does to the bindings**: those of the variable are missing. -/
theorem Lacks.splices (h : Lacks d t t') (holder : Option Tree) :
    Splices (boundBy none d) (boundBy holder t) (boundBy holder t') := by
  induction h generalizing holder with
  | here constant a b =>
    simp only [boundBy, Found.ofTree]
    exact splices_of_mem d a b
  | inLoop a b =>
    simp only [boundBy, Found.ofTree]
    exact splices_of_mem d a b
  | callee pos types args inner ih =>
    simp only [boundBy, Found.ofTree, ofCall_of_loaderOf? inner.loaderOf?.1,
      ofCall_of_loaderOf? inner.loaderOf?.2, Found.append]
    exact ((ih none).behind _).before _
  | typeArgument pos f a b args inner ih =>
    simp only [boundBy, Found.ofTree, Found.append]
    exact ((((ih none).among a b).behind _).before _).before _
  | argument pos f types a b inner ih =>
    simp only [boundBy, Found.ofTree, Found.append, inner.ofCall]
    exact ((((ih none).among a b).before _).before _).before _
  | key k a b u inner ih =>
    simp only [boundBy, Found.ofTree, Found.append]
    exact ((ih none).among a b).behind _
  | renamed k inside inner ih =>
    simp only [boundBy, Found.ofTree, Found.append]
    exact (ih none).before _
  | defaulted u inner ih =>
    simp only [boundBy, Found.ofTree, Found.append]
    exact (ih none).behind _
  | default u inner ih =>
    simp only [boundBy, Found.ofTree, Found.append]
    exact (ih none).before _
  | target pos typing value inner ih =>
    simp only [boundBy, Found.ofTree, Found.append, inner.ofValue]
    exact (ih none).behind _
  | typing pos u a b value inner ih =>
    simp only [boundBy, Found.ofTree, Found.append]
    exact (((ih none).among a b).behind _).before _
  | value pos u typing inner ih =>
    simp only [boundBy, Found.ofTree, Found.append, Found.ofValue]
    exact ((ih (some u)).before _).before _
  | ambient inner ih =>
    simp only [boundBy, Found.ofTree]
    exact ih none
  | decorator isDefault a b u inner ih =>
    simp only [boundBy, Found.ofTree, Found.append]
    exact ((ih none).among a b).behind _
  | exported isDefault decorators inner ih =>
    simp only [boundBy, Found.ofTree, Found.append]
    exact (ih none).before _
  | valueDecorator pos a b u inner ih =>
    simp only [boundBy, Found.ofTree, Found.append]
    exact ((ih none).among a b).behind _
  | exportedValue pos decorators inner ih =>
    simp only [boundBy, Found.ofTree, Found.append]
    exact (ih none).before _
  | property a b _ ih | reference a b _ ih | function _ _ a b _ ih | classValue _ a b _ ih
  | group a b _ ih | declaration _ a b _ ih | declarator _ a b _ ih | inImport _ _ _ _ a b _ ih
  | exportOther a b _ ih =>
    simp only [boundBy, Found.ofTree]
    exact (ih none).among a b

/-! ### Statements without a variable inside -/

/-- The statement is a declaration of variables, perhaps of such as exist elsewhere, or an export
of a declaration. -/
def Tree.holdsVariables : Tree → Bool
  | .variableList _ _ => true
  | .ambient _ => true
  | .exportDeclaration _ _ _ => true
  | _ => false

/-- The second statement is the first one without a variable that is declared further inside: in
any part of a statement that declares no variables itself, and otherwise in the type or the value
of a variable, or in a decorator. -/
inductive Nested (d : Tree) : Tree → Tree → Prop
  | inside {t t' : Tree} (other : t.holdsVariables = false) (inner : Lacks d t t') : Nested d t t'
  | typing {t t' : Tree} (constant : Bool) (a b : List Tree) (pos : Position) (u : Tree)
      (x y : List Tree) (value : Option Tree) (inner : Lacks d t t') :
      Nested d (.variableList constant (a ++ .declarator pos u (x ++ t :: y) value :: b))
        (.variableList constant (a ++ .declarator pos u (x ++ t' :: y) value :: b))
  | value {t t' : Tree} (constant : Bool) (a b : List Tree) (pos : Position) (u : Tree)
      (typing : List Tree) (inner : Lacks d t t') :
      Nested d (.variableList constant (a ++ .declarator pos u typing (some t) :: b))
        (.variableList constant (a ++ .declarator pos u typing (some t') :: b))
  | ambient {t t' : Tree} (inner : Nested d t t') : Nested d (.ambient t) (.ambient t')
  | decorator {t t' : Tree} (isDefault : Bool) (a b : List Tree) (u : Tree)
      (inner : Lacks d t t') :
      Nested d (.exportDeclaration isDefault (a ++ t :: b) u)
        (.exportDeclaration isDefault (a ++ t' :: b) u)
  | exported {t t' : Tree} (isDefault : Bool) (decorators : List Tree) (inner : Nested d t t') :
      Nested d (.exportDeclaration isDefault decorators t)
        (.exportDeclaration isDefault decorators t')

theorem Nested.lacks (h : Nested d t t') : Lacks d t t' := by
  induction h with
  | inside other inner => exact inner
  | typing constant a b pos u x y value inner =>
    exact .declarator constant a b (.typing pos u x y value inner)
  | value constant a b pos u typing inner =>
    exact .declarator constant a b (.value pos u typing inner)
  | ambient inner ih => exact .ambient ih
  | decorator isDefault a b u inner => exact .decorator isDefault a b u inner
  | exported isDefault decorators inner ih => exact .exported isDefault decorators ih

theorem Lacks.ofStatement (h : Lacks d t t') :
    (Found.ofStatement t).bindings = (Found.ofStatement t').bindings := by
  cases h <;> rfl

/-- The kind of a variable depends on whether its value is a function, which it is also without
a variable inside it. -/
theorem Lacks.declaredByVariable (h : Lacks d t t') (constant : Bool) (pos : Position) (u : Tree)
    (typing : List Tree) :
    declaredByVariable constant (.declarator pos u typing (some t)) =
      declaredByVariable constant (.declarator pos u typing (some t')) := by
  cases h <;> rfl

/-- A statement declares the same without a variable that is declared further inside. -/
theorem Nested.declaredBy (h : Nested d t t') : declaredBy t = declaredBy t' := by
  induction h with
  | inside other inner => cases inner <;> first | rfl | cases other
  | typing constant a b pos u x y value inner =>
    simp only [Script.declaredBy, List.flatMap_append, List.flatMap_cons]
    congr 2
    cases value with
    | none => rfl
    | some v => cases v <;> rfl
  | value constant a b pos u typing inner =>
    simp only [Script.declaredBy, List.flatMap_append, List.flatMap_cons]
    rw [inner.declaredByVariable]
  | ambient inner ih => simpa only [Script.declaredBy] using ih
  | decorator | exported => rfl

theorem Nested.declaredAtTop (h : Nested d t t') : declaredAtTop t = declaredAtTop t' := by
  cases h with
  | inside other inner =>
    have same := (Nested.inside other inner).declaredBy
    cases inner <;> first | exact same | cases other
  | exported isDefault decorators inner => exact inner.declaredBy
  | decorator => rfl
  | typing constant a b pos u x y value inner =>
    exact (Nested.typing constant a b pos u x y value inner).declaredBy
  | value constant a b pos u typing inner =>
    exact (Nested.value constant a b pos u typing inner).declaredBy
  | ambient inner => exact (Nested.ambient inner).declaredBy

/-- A value is exported the same without a variable inside it. -/
theorem Lacks.exportOfValue (h : Lacks d t t') (s : Scope) (pos : Position) :
    exportOfValue s pos t = exportOfValue s pos t' := by
  cases h <;> rfl

/-- In a given scope, a statement exports the same without a variable that is declared further
inside. -/
theorem Nested.exportsOf (h : Nested d t t') (s : Scope) : exportsOf s t = exportsOf s t' := by
  cases h with
  | inside other inner =>
    cases inner with
    | exportedValue pos decorators inner =>
      simp only [Script.exportsOf, inner.exportOfValue]
    | exported | decorator => cases other
    | _ => rfl
  | exported isDefault decorators inner => simp only [Script.exportsOf, inner.declaredBy]
  | _ => rfl

end ModuleAtlas.Script
