/-
ModuleAtlas/Proofs/NestedLoads.lean

Modules that are loaded inside functions and blocks.

A variable can get a module by a call of the loader, and such calls are looked for in the whole
script, however deep they stand.  What they bind goes into one list with what the import
statements bind, and an export of a local name goes by the last binding of that name.

Without a variable of a declaration inside a statement, a row of the bindings is missing.  So the
exports of the script are the same without the variable, except where it has `Captured` an
exported name: the last binding of the name is the variable's, and the bindings before it say
something else or nothing.

Main result: `exports_without_nested`.
-/
import ModuleAtlas.Proofs.MissingVariable

namespace ModuleAtlas.Script

variable {d t t' : Tree}

/-! ### What a name stands for -/

/-- What a binding says about its name. -/
def Binding.says (b : Binding) : String × String := (b.remote, b.specifier)

theorem bindingOf?_append (a b : List Binding) (x : String) :
    bindingOf? (a ++ b) x = (bindingOf? b x).or (bindingOf? a x) := by
  unfold bindingOf?
  rw [List.reverse_append, List.find?_append]

/-- A row of bindings captures a name: it has the last binding of the name, and those before it do
not say the same. -/
def Captured (before row after : List Binding) (x : String) : Prop :=
  ∃ b, bindingOf? row x = some b ∧ bindingOf? after x = none ∧
    ∀ b', bindingOf? before x = some b' → b'.says ≠ b.says

/-- Without a row of bindings a name stands for the same exactly if the row does not capture it. -/
theorem map_says_eq_iff (before row after : List Binding) (x : String) :
    (bindingOf? (before ++ after) x).map Binding.says =
        (bindingOf? (before ++ row ++ after) x).map Binding.says ↔
      ¬ Captured before row after x := by
  rw [bindingOf?_append, bindingOf?_append, bindingOf?_append]
  unfold Captured
  rcases bindingOf? after x with - | c
  · rcases bindingOf? row x with - | b
    · simp
    · rcases bindingOf? before x with - | b'
      · simp
      · simp
  · simp

/-- An export that goes by a binding if there is one, and is no re-export otherwise, tells what
the binding says. -/
theorem elim_withBinding_eq_iff {e plain : Export} (own : plain.isReexport = false)
    (o o' : Option Binding) :
    o.elim plain (withBinding e) = o'.elim plain (withBinding e) ↔
      o.map Binding.says = o'.map Binding.says := by
  have other : ∀ b, withBinding e b ≠ plain := by
    rintro b rfl
    cases own
  cases o with
  | none =>
    cases o' with
    | none => simp
    | some b' => simpa using (other b').symm
  | some b =>
    cases o' with
    | none => simpa using other b
    | some b' =>
      simp only [Option.elim_some, Option.map_some, Option.some.injEq, Binding.says, Prod.mk.injEq]
      constructor
      · intro same
        exact ⟨Option.some.inj (congrArg Export.remote same),
          Option.some.inj (congrArg Export.source same)⟩
      · rintro ⟨remote, specifier⟩
        simp only [withBinding, remote, specifier]

section Scopes

variable {s s' : Scope}

/-- An export that goes by the binding of a name, or else by its declaration, is the same in two
scopes with the same declarations exactly if the name stands for the same in both. -/
theorem export_eq_iff {f : Scope → Export} {x : String} (e : Export)
    (own : Option Declared → Export) (plain : ∀ o, (own o).isReexport = false)
    (form : ∀ s, f s = (bindingOf? s.bindings x).elim (own (s.local? x)) (withBinding e))
    (locals : s.locals = s'.locals) :
    f s = f s' ↔
      (bindingOf? s.bindings x).map Binding.says = (bindingOf? s'.bindings x).map Binding.says := by
  have same : s.local? x = s'.local? x := by
    unfold Scope.local?
    rw [locals]
  rw [form, form, same]
  exact elim_withBinding_eq_iff (plain _) _ _

/-- The export of a name in a clause, apart from what the name stands for. -/
def ClauseName.bare (c : ClauseName) : Export :=
  { name := c.outer, isDefault := c.outer == defaultName, pos := c.pos }

theorem exportOfName_eq_iff (locals : s.locals = s'.locals) (c : ClauseName) :
    exportOfName s c = exportOfName s' c ↔
      (bindingOf? s.bindings c.name).map Binding.says =
        (bindingOf? s'.bindings c.name).map Binding.says := by
  refine export_eq_iff (f := (exportOfName · c)) c.bare
    (fun o => o.elim c.bare fun d =>
      { c.bare with kind := d.kind, members := d.members, signature := d.signature }) ?_ ?_ locals
  · rintro (- | d) <;> rfl
  · intro s
    unfold exportOfName
    cases bindingOf? s.bindings c.name with
    | some b => rfl
    | none => cases s.local? c.name <;> rfl

/-- The default export of a name, apart from what the name stands for. -/
def bareDefault (pos : Position) : Export :=
  { name := defaultName, kind := .defaultValue, isDefault := true, pos }

theorem exportOfValue_eq_iff (locals : s.locals = s'.locals) (pos : Position) (x : String) :
    exportOfValue s pos (.name x) = exportOfValue s' pos (.name x) ↔
      (bindingOf? s.bindings x).map Binding.says = (bindingOf? s'.bindings x).map Binding.says := by
  refine export_eq_iff (f := (exportOfValue · pos (.name x))) (bareDefault pos)
    (fun o => o.elim (bareDefault pos) fun d =>
      { bareDefault pos with kind := d.kind, members := d.members }) ?_ ?_ locals
  · rintro (- | d) <;> rfl
  · intro s
    unfold exportOfValue
    dsimp only
    cases bindingOf? s.bindings x with
    | some b => rfl
    | none => cases s.local? x <;> rfl

/-- The local names that a statement exports: those in a clause, and the one in a default export of
a name. -/
def Tree.exportedLocals : Tree → List String
  | .exportValue _ _ (.name x) => [x]
  | .exportNames clause => clause.map ClauseName.name
  | _ => []

/-- A statement exports the same in two scopes with the same declarations exactly if all local
names that it exports stand for the same in both. -/
theorem exportsOf_eq_iff (locals : s.locals = s'.locals) (t : Tree) :
    exportsOf s t = exportsOf s' t ↔
      ∀ x ∈ t.exportedLocals, (bindingOf? s.bindings x).map Binding.says =
        (bindingOf? s'.bindings x).map Binding.says := by
  cases t with
  | exportNames clause =>
    simp only [Script.exportsOf, Tree.exportedLocals, List.map_inj_left, List.mem_map,
      forall_exists_index, and_imp, forall_apply_eq_imp_iff₂, exportOfName_eq_iff locals]
  | exportValue pos decorators value =>
    cases value with
    | name x =>
      simp only [Script.exportsOf, Tree.exportedLocals, List.cons.injEq, and_true,
        List.mem_singleton, forall_eq, exportOfValue_eq_iff locals]
    | _ => exact iff_of_true rfl fun _ h => absurd h List.not_mem_nil
  | _ => exact iff_of_true rfl fun _ h => absurd h List.not_mem_nil

end Scopes

/-! ### Scripts without a variable inside -/

/-- What the names of a script stand for. -/
def scopeOf (items : List Item) : Scope :=
  ⟨(Found.ofScript (statements items)).bindings, localDeclarations (statements items)⟩

/-- The second script is the first one without a variable inside one of its statements. -/
inductive LacksNested (d : Tree) : List Item → List Item → Prop
  | at {t t' : Tree} (a b : List Item) (nested : Nested d t t') :
      LacksNested d (a ++ .statement t :: b) (a ++ .statement t' :: b)

theorem statements_append (a b : List Item) :
    statements (a ++ b) = statements a ++ statements b := by
  induction a with
  | nil => rfl
  | cons i a ih =>
    cases i with
    | comment text => exact ih
    | statement t => exact congrArg (t :: ·) ih

theorem bindings_scopeOf (items : List Item) :
    (scopeOf items).bindings =
      ((statements items).flatMap fun t => (Found.ofStatement t).bindings) ++
        boundByAll (statements items) := by
  show (Found.all (statements items)).bindings = _
  unfold Found.all
  show Found.bindings (List.foldl _ _ _) ++ boundByAll (statements items) = _
  rw [foldl_ofStatement]
  rfl

variable {items items' : List Item}

/-- The scope of a script without a variable inside lacks the bindings of the variable, and nothing
else. -/
theorem LacksNested.scopeOf (lacks : LacksNested d items items') :
    ∃ before after, (scopeOf items).bindings = before ++ boundBy none d ++ after ∧
      scopeOf items' = ⟨before ++ after, (scopeOf items).locals⟩ := by
  rcases lacks with @⟨t, t', a, b, nested⟩
  have splices : Splices (boundBy none d) (Script.scopeOf (a ++ .statement t :: b)).bindings
      (Script.scopeOf (a ++ .statement t' :: b)).bindings := by
    rw [bindings_scopeOf, bindings_scopeOf, statements_append, statements_append]
    simp only [statements, List.flatMap_append, List.flatMap_cons, nested.lacks.ofStatement]
    exact ((nested.lacks.splices none).among _ _).before _
  have locals : localDeclarations (statements (a ++ .statement t :: b)) =
      localDeclarations (statements (a ++ .statement t' :: b)) := by
    unfold localDeclarations
    rw [statements_append, statements_append]
    simp only [statements, List.flatMap_append, List.flatMap_cons, nested.declaredAtTop]
  obtain ⟨before, after, whole, rest⟩ := splices
  refine ⟨before, after, whole, ?_⟩
  rw [← rest]
  exact congrArg (Scope.mk _) locals.symm

/-- The exports of a script depend on its statements through what these export. -/
theorem exportsFrom_replace {s : Scope} (same : exportsOf s t = exportsOf s t') (a b : List Item)
    (found : List Export) (doc : Doc) :
    exportsFrom s found doc (a ++ .statement t :: b) =
      exportsFrom s found doc (a ++ .statement t' :: b) := by
  induction a generalizing found doc with
  | nil => simp only [List.nil_append, exportsFrom, same]
  | cons i a ih =>
    cases i with
    | comment text => simpa only [List.cons_append, exportsFrom] using ih _ _
    | statement u => simpa only [List.cons_append, exportsFrom] using ih _ _

theorem exportsFrom_congr {s s' : Scope}
    (same : ∀ t ∈ statements items, exportsOf s t = exportsOf s' t) (found : List Export)
    (doc : Doc) : exportsFrom s found doc items = exportsFrom s' found doc items := by
  induction items generalizing found doc with
  | nil => rfl
  | cons i items ih =>
    cases i with
    | comment text =>
      simp only [exportsFrom]
      exact ih same _ _
    | statement t =>
      simp only [exportsFrom, same t List.mem_cons_self]
      exact ih (fun u hu => same u (List.mem_cons_of_mem _ hu)) _ _

/-- A name that is captured is exported as what the row says about it. -/
theorem Captured.exportOfName {s : Scope} {before row after : List Binding} {c : ClauseName}
    (h : Captured before row after c.name) (whole : s.bindings = before ++ row ++ after) :
    ∃ b ∈ row, exportOfName s c = withBinding c.bare b := by
  obtain ⟨b, last, none, -⟩ := h
  refine ⟨b, mem_of_bindingOf? last, ?_⟩
  unfold Script.exportOfName
  rw [whole, bindingOf?_append, bindingOf?_append, none, last]
  rfl

/-- **Modules loaded inside functions and blocks.**  Without a variable that is declared inside a
statement, a script has the bindings that it has with it, less those of the variable, and the same
declarations.  A statement exports the same with and without the variable exactly if none of the
local names that it exports is captured by the variable, and where that is so of all statements the
exports of the script are the same.  A captured name is exported as what the variable gets, whatever
the script declares under that name. -/
theorem exports_without_nested (lacks : LacksNested d items items') (lineCount : Nat) :
    ∃ before after, (scopeOf items).bindings = before ++ boundBy none d ++ after ∧
      scopeOf items' = ⟨before ++ after, (scopeOf items).locals⟩ ∧
      (∀ t, exportsOf (scopeOf items') t = exportsOf (scopeOf items) t ↔
        ∀ x ∈ t.exportedLocals, ¬ Captured before (boundBy none d) after x) ∧
      ((∀ t ∈ statements items, ∀ x ∈ t.exportedLocals,
          ¬ Captured before (boundBy none d) after x) →
        (recordOf items' lineCount).exports = (recordOf items lineCount).exports) ∧
      ∀ c : ClauseName, Captured before (boundBy none d) after c.name →
        ∃ b ∈ boundBy none d, exportOfName (scopeOf items) c = withBinding c.bare b := by
  obtain ⟨before, after, whole, rest⟩ := lacks.scopeOf
  have each : ∀ t, exportsOf (scopeOf items') t = exportsOf (scopeOf items) t ↔
      ∀ x ∈ t.exportedLocals, ¬ Captured before (boundBy none d) after x := by
    intro t
    rw [exportsOf_eq_iff (by rw [rest]), rest, whole]
    simp only [map_says_eq_iff]
  refine ⟨before, after, whole, rest, each, ?_, fun c captured => captured.exportOfName whole⟩
  intro free
  show exportsFrom (scopeOf items') [] {} items' = exportsFrom (scopeOf items) [] {} items
  have scopes : exportsFrom (scopeOf items') [] {} items = exportsFrom (scopeOf items) [] {} items :=
    exportsFrom_congr (fun t ht => (each t).2 (free t ht)) [] {}
  rw [← scopes]
  obtain ⟨a, b, nested⟩ := lacks
  exact exportsFrom_replace (nested.exportsOf _).symm a b [] {}

/-- The variable of `const x = require('./m')`. -/
def loadedVariable : Tree :=
  .declarator ⟨2, 24⟩ (.name "x") []
    (some (.call ⟨2, 28⟩ (.name "require") [] [.quoted "./m"]))

/-- The script that declares `x`, declares a function with some variables of its own, and exports
`x`. -/
def shadowing (own : List Tree) : List Item :=
  [.statement (.variableList true [.declarator ⟨1, 7⟩ (.name "x") [] (some (.group []))]),
   .statement (.declaration { name := "f", kind := .function, pos := ⟨2, 1⟩ }
     ([.name "f"] ++ .group ([] ++ .variableList true ([] ++ own) :: []) :: [])),
   .statement (.exportNames [⟨⟨3, 10⟩, "x", none, ["x"]⟩])]

/-- A function that loads a module into a variable of its own makes a re-export of the variable of
the same name that the script exports, in the tree and in the text. -/
theorem exports_without_nested_shadowing :
    LacksNested loadedVariable (shadowing [loadedVariable]) (shadowing []) ∧
      (∃ before after, (scopeOf (shadowing [loadedVariable])).bindings =
          before ++ boundBy none loadedVariable ++ after ∧
        Captured before (boundBy none loadedVariable) after "x") ∧
      (recordOf (shadowing [loadedVariable]) 3).exports.map Export.source = [some "./m"] ∧
      (recordOf (shadowing []) 3).exports.map Export.source = [none] ∧
      ((Source.recordOf "m.ts" ("const x = 1;\nfunction f() \x7b const x = require('./m') \x7d\n" ++
        "export \x7b x \x7d").toList).toOption.map fun r => r.exports.map Export.source)
        = some [some "./m"] := by
  have lacks : LacksNested loadedVariable (shadowing [loadedVariable]) (shadowing []) :=
    .at [_] [_] (.inside rfl (.declaration _ [_] [] (.group [] [] (.here true [] []))))
  obtain ⟨before, after, whole, -, each, -⟩ := exports_without_nested lacks 3
  have differ : exportsOf (scopeOf (shadowing [])) (.exportNames [⟨⟨3, 10⟩, "x", none, ["x"]⟩]) ≠
      exportsOf (scopeOf (shadowing [loadedVariable])) (.exportNames [⟨⟨3, 10⟩, "x", none, ["x"]⟩]) := by
    decide
  have captured : Captured before (boundBy none loadedVariable) after "x" := by
    refine Classical.byContradiction fun free => differ ((each _).2 ?_)
    intro x hx
    obtain rfl := List.mem_singleton.1 hx
    exact free
  exact ⟨lacks, ⟨before, after, whole, captured⟩, by decide, by decide, by decide +kernel⟩

end ModuleAtlas.Script
