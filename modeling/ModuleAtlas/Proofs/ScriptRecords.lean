/-
ModuleAtlas/Proofs/ScriptRecords.lean

The imports and the exports of a script fit together.

Imports and exports are read from the syntax tree by functions of their own, which meet
only in the bindings: what an import binds to a local name can be exported under it.
`Found.Backed` says that each binding has an import that takes its name from its module,
whether it comes from an import statement or from a call anywhere in the script; later
bindings of a name replace earlier ones, but each keeps its import.  With that every
re-export of a script has an import from its source that takes its name there
(`fits_recordOf`), which is what lets an analysis of imports speak about exports.
-/
import ModuleAtlas.Source

namespace ModuleAtlas

/-- The import takes the name from the module of the specifier. -/
def Import.Takes (i : Import) (specifier name : String) : Prop :=
  i.specifier = specifier ∧ name ∈ i.names

/-- The imports of a record fit its exports: a re-export names a module and what it has there,
and an import takes that; a namespace stands for a whole module; a star export is an import of a
whole module; and what an import names as a package depends on its specifier alone. -/
structure Record.Fits (r : Record) : Prop where
  reexports : ∀ e ∈ r.exports, e.isReexport = true →
    ∃ s m, e.source = some s ∧ e.remote = some m ∧ ∃ i ∈ r.imports, i.Takes s m
  namespaces : ∀ e ∈ r.exports, e.isNamespace = true → e.remote = some wholeModule
  stars : ∀ s ∈ r.stars, ∃ i ∈ r.imports, i.Takes s wholeModule
  inside : ∀ i ∈ r.imports, i.package = none ↔ Specifier.isInternal i.specifier = true

namespace Script

/-! ### Bindings and their imports -/

/-- Every binding has an import that takes its name from its module, and no import names a
package yet. -/
structure Found.Backed (f : Found) : Prop where
  backed : ∀ b ∈ f.bindings, ∃ i ∈ f.imports, i.Takes b.specifier b.remote
  bare : ∀ i ∈ f.imports, i.package = none

theorem Found.backed_empty : Found.Backed {} := ⟨nofun, nofun⟩

theorem Found.Backed.append {f f' : Found} (h : f.Backed) (h' : f'.Backed) :
    (f.append f').Backed := by
  constructor
  · intro b hb
    rcases List.mem_append.1 hb with hb | hb
    · obtain ⟨i, hi, takes⟩ := h.backed b hb
      exact ⟨i, List.mem_append_left _ hi, takes⟩
    · obtain ⟨i, hi, takes⟩ := h'.backed b hb
      exact ⟨i, List.mem_append_right _ hi, takes⟩
  · intro i hi
    rcases List.mem_append.1 hi with hi | hi
    · exact h.bare i hi
    · exact h'.bare i hi

/-- One import without a package backs the bindings of names that it takes. -/
theorem Found.backed_single {i : Import} {bindings : List Binding} (bare : i.package = none)
    (takes : ∀ b ∈ bindings, i.Takes b.specifier b.remote) : Found.Backed ⟨[i], bindings⟩ := by
  refine ⟨fun b hb => ⟨i, List.mem_singleton.2 rfl, takes b hb⟩, ?_⟩
  intro j hj
  obtain rfl := List.mem_singleton.1 hj
  exact bare

theorem backed_ofStatement (tree : Tree) : (Found.ofStatement tree).Backed := by
  cases tree with
  | importing pos typeOnly parts specifier inside =>
    refine Found.backed_single rfl fun b hb => ?_
    obtain ⟨part, hp, rfl⟩ := List.mem_map.1 hb
    refine ⟨?_, List.mem_map.2 ⟨part, hp, ?_⟩⟩ <;> cases part <;> rfl
  | exportFrom pos typeOnly taken specifier => exact Found.backed_single rfl nofun
  | _ => exact Found.backed_empty

/-- What a pattern binds it also takes, under the same name. -/
theorem mem_takenBy {specifier : String} {properties : List Tree} {x : String × Option Binding}
    (h : x ∈ takenBy specifier properties) :
    ∀ b, x.2 = some b → b.specifier = specifier ∧ b.remote = x.1 := by
  fun_induction takenBy specifier properties with
  | case1 => cases h
  | case2 name rest ih =>
    rcases List.mem_cons.1 h with rfl | h
    · rintro b ⟨⟩
      exact ⟨rfl, rfl⟩
    · exact ih h
  | case3 key inside binds rest ih =>
    rcases List.mem_cons.1 h with rfl | h
    · rintro b ⟨⟩
      exact ⟨rfl, rfl⟩
    · exact ih h
  | case4 key inside value rest _ ih =>
    rcases List.mem_cons.1 h with rfl | h
    · exact nofun
    · exact ih h
  | case5 tree rest _ _ _ ih => exact ih h

theorem mem_takenInto {specifier : String} {holder : Option Tree} {b : Binding}
    (h : b ∈ (takenInto specifier holder).2) :
    b.specifier = specifier ∧ b.remote ∈ (takenInto specifier holder).1 := by
  unfold takenInto at h ⊢
  split at h
  · obtain rfl := List.mem_singleton.1 h
    exact ⟨rfl, List.mem_singleton.2 rfl⟩
  · next properties =>
    dsimp only at h ⊢
    split at h
    · cases h
    · next some =>
      -- some properties bind nothing, so there may be more names than bindings
      obtain ⟨x, hx, eq⟩ := List.mem_filterMap.1 h
      obtain ⟨module, remote⟩ := mem_takenBy hx b eq
      rw [if_neg some]
      exact ⟨module, List.mem_map.2 ⟨x, hx, remote.symm⟩⟩
  · cases h

theorem backed_ofCall (holder : Option Tree) (pos : Position) (callee : Tree)
    (args : List Tree) : (Found.ofCall holder pos callee args).Backed := by
  unfold Found.ofCall
  split
  · exact Found.backed_single rfl nofun
  · refine Found.backed_single rfl fun b hb => ?_
    obtain ⟨module, remote⟩ := mem_takenInto hb
    exact ⟨module.symm, remote⟩
  · exact Found.backed_empty

mutual

-- Only a call finds something itself; every other tree hands on what its parts find.

/-- The bindings of the calls in a tree have their imports. -/
theorem backed_ofTree (holder : Option Tree) : (tree : Tree) → (Found.ofTree holder tree).Backed
  | .call pos callee types args => by
    rw [Found.ofTree]
    exact (backed_ofCall holder pos callee args).append <|
      (backed_ofTree none callee).append <| (backed_ofTrees types).append (backed_ofTrees args)
  | .rename _ inside value => by
    rw [Found.ofTree]
    exact (backed_ofTrees inside).append (backed_ofTree none value)
  | .defaulted target value => by
    rw [Found.ofTree]
    exact (backed_ofTree none target).append (backed_ofTree none value)
  | .declarator _ target typing value => by
    rw [Found.ofTree]
    exact (backed_ofTree none target).append <|
      (backed_ofTrees typing).append (backed_ofValue target value)
  | .exportDeclaration _ decorators inner | .exportValue _ decorators inner => by
    rw [Found.ofTree]
    exact (backed_ofTrees decorators).append (backed_ofTree none inner)
  | .ambient inner => by
    rw [Found.ofTree]
    exact backed_ofTree none inner
  | .fields parts | .reference parts | .function _ _ parts | .classValue _ parts | .group parts
  | .declaration _ parts | .variableList _ parts | .importing _ _ _ _ parts
  | .exportOther parts => by
    rw [Found.ofTree]
    exact backed_ofTrees parts
  | .name _ | .shorthand _ | .quoted _ | .remark | .loader | .exportFrom _ _ _ _
  | .exportNames _ => by
    simpa only [Found.ofTree] using Found.backed_empty

theorem backed_ofValue (target : Tree) :
    (value : Option Tree) → (Found.ofValue target value).Backed
  | some value => by rw [Found.ofValue]; exact backed_ofTree (some target) value
  | none => by rw [Found.ofValue]; exact Found.backed_empty

theorem backed_ofTrees : (trees : List Tree) → (Found.ofTrees trees).Backed
  | [] => by rw [Found.ofTrees]; exact Found.backed_empty
  | tree :: rest => by
    rw [Found.ofTrees]
    exact (backed_ofTree none tree).append (backed_ofTrees rest)

end

/-! ### Scripts -/

section

variable {trees : List Tree}

/-- What the statements of a script and the calls in it import and bind. -/
def Found.all (trees : List Tree) : Found :=
  Found.append (trees.foldl (fun f t => Found.append f (Found.ofStatement t)) {})
    (Found.ofTrees trees)

/-- What statements import and bind comes in their order. -/
theorem foldl_ofStatement (trees : List Tree) (f : Found) :
    trees.foldl (fun f t => Found.append f (Found.ofStatement t)) f =
      f.append ⟨trees.flatMap fun t => (Found.ofStatement t).imports,
        trees.flatMap fun t => (Found.ofStatement t).bindings⟩ := by
  induction trees generalizing f with
  | nil => simp [Found.append]
  | cons t trees ih =>
    rw [List.foldl_cons, ih]
    simp only [Found.append, List.flatMap_cons, List.append_assoc]

theorem backed_foldl_ofStatement {f : Found} (backed : f.Backed) :
    (trees.foldl (fun f t => Found.append f (Found.ofStatement t)) f).Backed := by
  induction trees generalizing f with
  | nil => exact backed
  | cons t trees ih => exact ih (backed.append (backed_ofStatement t))

theorem backed_all (trees : List Tree) : (Found.all trees).Backed :=
  (backed_foldl_ofStatement Found.backed_empty).append (backed_ofTrees trees)

theorem mem_imports_foldl_ofStatement {f : Found} {i : Import}
    (h : i ∈ f.imports ∨ ∃ t ∈ trees, i ∈ (Found.ofStatement t).imports) :
    i ∈ (trees.foldl (fun f t => Found.append f (Found.ofStatement t)) f).imports := by
  rw [foldl_ofStatement]
  exact List.mem_append.2 (h.imp_right List.mem_flatMap.2)

theorem withPackage_takes {i : Import} {specifier name : String} (h : i.Takes specifier name) :
    (withPackage i).Takes specifier name := by
  unfold withPackage
  split
  · exact h
  · exact h

/-- The imports of a script are those found, in reading order and with their packages. -/
theorem mem_imports_ofScript {i : Import} :
    i ∈ (Found.ofScript trees).imports ↔ ∃ j ∈ (Found.all trees).imports, withPackage j = i := by
  show i ∈ ((Found.all trees).imports.mergeSort _).map withPackage ↔ _
  rw [List.mem_map]
  simp only [List.mem_mergeSort]

/-- A statement of a script is among its imports. -/
theorem exists_import_of_statement {t : Tree} {i : Import} {specifier name : String}
    (ht : t ∈ trees) (hi : i ∈ (Found.ofStatement t).imports) (takes : i.Takes specifier name) :
    ∃ j ∈ (Found.ofScript trees).imports, j.Takes specifier name := by
  refine ⟨withPackage i, mem_imports_ofScript.2 ⟨i, ?_, rfl⟩, withPackage_takes takes⟩
  exact List.mem_append_left _ (mem_imports_foldl_ofStatement (.inr ⟨t, ht, hi⟩))

/-- A binding of a script has an import of it. -/
theorem exists_import_of_binding {b : Binding} (hb : b ∈ (Found.ofScript trees).bindings) :
    ∃ j ∈ (Found.ofScript trees).imports, j.Takes b.specifier b.remote := by
  obtain ⟨i, hi, takes⟩ := (backed_all trees).backed b hb
  exact ⟨withPackage i, mem_imports_ofScript.2 ⟨i, hi, rfl⟩, withPackage_takes takes⟩

/-- An import of a script names no package exactly if its specifier points to a file. -/
theorem package_eq_none_iff {i : Import} (h : i ∈ (Found.ofScript trees).imports) :
    i.package = none ↔ Specifier.isInternal i.specifier = true := by
  obtain ⟨j, hj, rfl⟩ := mem_imports_ofScript.1 h
  unfold withPackage
  split
  · next inside => exact iff_of_true ((backed_all trees).bare j hj) inside
  · next outside => exact iff_of_false nofun outside

/-! ### Exports -/

variable {s : Scope} {e : Export}

/-- The export is that of a binding. -/
def Bound (s : Scope) (e : Export) : Prop :=
  ∃ b ∈ s.bindings, e.source = some b.specifier ∧ e.remote = some b.remote

theorem mem_of_bindingOf? {bindings : List Binding} {name : String} {b : Binding}
    (h : bindingOf? bindings name = some b) : b ∈ bindings :=
  List.mem_reverse.1 (List.mem_of_find?_eq_some h)

theorem bound_exportOfValue {pos : Position} {value : Tree}
    (reexport : (exportOfValue s pos value).isReexport = true) :
    Bound s (exportOfValue s pos value) := by
  unfold exportOfValue at reexport ⊢
  dsimp only at reexport ⊢
  split at reexport
  · cases reexport
  · cases reexport
  · split at reexport
    · next b found => exact ⟨b, mem_of_bindingOf? found, rfl, rfl⟩
    · split at reexport <;> cases reexport
  · cases reexport

theorem bound_exportOfName {c : ClauseName} (reexport : (exportOfName s c).isReexport = true) :
    Bound s (exportOfName s c) := by
  unfold exportOfName at reexport ⊢
  dsimp only at reexport ⊢
  split at reexport
  · next b found => exact ⟨b, mem_of_bindingOf? found, rfl, rfl⟩
  · split at reexport <;> cases reexport

/-- What a statement exports from another module it imports from there. -/
theorem imported_exportsOfTaken {pos : Position} {specifier : String} {taken : Taken}
    (h : e ∈ exportsOfTaken pos specifier taken) :
    e.source = some specifier ∧ ∃ m ∈ taken.imported, e.remote = some m := by
  cases taken with
  | star => cases h
  | whole name =>
    obtain rfl := List.mem_singleton.1 h
    exact ⟨rfl, wholeModule, List.mem_singleton.2 rfl, rfl⟩
  | names clause =>
    obtain ⟨c, hc, rfl⟩ := List.mem_map.1 h
    exact ⟨rfl, c.name, List.mem_map_of_mem hc, rfl⟩

/-- A re-export is that of a binding, or its statement imports it. -/
theorem reexport_cases {t : Tree} (h : e ∈ exportsOf s t) (reexport : e.isReexport = true) :
    Bound s e ∨ ∃ i ∈ (Found.ofStatement t).imports, ∃ m ∈ i.names,
      e.source = some i.specifier ∧ e.remote = some m := by
  cases t with
  | exportDeclaration isDefault decorators declared =>
    obtain ⟨d, -, rfl⟩ := List.mem_map.1 h
    cases reexport
  | exportValue pos decorators value =>
    obtain rfl := List.mem_singleton.1 h
    exact .inl (bound_exportOfValue reexport)
  | exportFrom pos typeOnly taken specifier =>
    obtain ⟨source, m, hm, remote⟩ := imported_exportsOfTaken h
    exact .inr ⟨_, List.mem_singleton.2 rfl, m, hm, source, remote⟩
  | exportNames clause =>
    obtain ⟨c, -, rfl⟩ := List.mem_map.1 h
    exact .inl (bound_exportOfName reexport)
  | _ => cases h

/-! ### Namespaces -/

theorem remote_withBinding_of_isNamespace {b : Binding}
    (whole : (withBinding e b).isNamespace = true) :
    (withBinding e b).remote = some wholeModule := by
  have remote : b.remote = wholeModule := eq_of_beq whole
  show some b.remote = some wholeModule
  rw [remote]

theorem remote_exportOfValue_of_isNamespace {pos : Position} {value : Tree}
    (whole : (exportOfValue s pos value).isNamespace = true) :
    (exportOfValue s pos value).remote = some wholeModule := by
  unfold exportOfValue at whole ⊢
  dsimp only at whole ⊢
  split at whole
  · cases whole
  · cases whole
  · split at whole
    · exact remote_withBinding_of_isNamespace whole
    · split at whole <;> cases whole
  · cases whole

theorem remote_exportOfName_of_isNamespace {c : ClauseName}
    (whole : (exportOfName s c).isNamespace = true) :
    (exportOfName s c).remote = some wholeModule := by
  unfold exportOfName at whole ⊢
  dsimp only at whole ⊢
  split at whole
  · exact remote_withBinding_of_isNamespace whole
  · split at whole <;> cases whole

/-- A namespace that a statement exports stands for a whole module. -/
theorem remote_of_isNamespace {t : Tree} (h : e ∈ exportsOf s t) (whole : e.isNamespace = true) :
    e.remote = some wholeModule := by
  cases t with
  | exportDeclaration isDefault decorators declared =>
    obtain ⟨d, -, rfl⟩ := List.mem_map.1 h
    cases whole
  | exportValue pos decorators value =>
    obtain rfl := List.mem_singleton.1 h
    exact remote_exportOfValue_of_isNamespace whole
  | exportFrom pos typeOnly taken specifier =>
    cases taken with
    | star => cases h
    | whole name =>
      obtain rfl := List.mem_singleton.1 h
      rfl
    | names clause =>
      obtain ⟨c, -, rfl⟩ := List.mem_map.1 h
      cases whole
  | exportNames clause =>
    obtain ⟨c, -, rfl⟩ := List.mem_map.1 h
    exact remote_exportOfName_of_isNamespace whole
  | _ => cases h

/-! ### Records -/

theorem mem_foldl_addExport {new found : List Export} (h : e ∈ new.foldl addExport found) :
    e ∈ found ∨ e ∈ new := by
  induction new generalizing found with
  | nil => exact .inl h
  | cons x new ih =>
    rcases ih h with h | h
    · unfold addExport at h
      split at h
      · exact .inl h
      · rcases List.mem_append.1 h with h | h
        · exact .inl h
        · exact .inr (List.mem_singleton.1 h ▸ List.mem_cons_self)
    · exact .inr (List.mem_cons_of_mem _ h)

/-- The exports of a script are those of its statements, with what comments say. -/
theorem mem_exportsFrom {found : List Export} {doc : Doc} {items : List Item}
    (h : e ∈ exportsFrom s found doc items) :
    e ∈ found ∨ ∃ t ∈ statements items, ∃ o ∈ exportsOf s t, ∃ d, withDoc d o = e := by
  fun_induction exportsFrom s found doc items with
  | case1 => exact .inl h
  | case2 found doc text rest ih => exact ih h
  | case3 found doc t rest ih =>
    rcases ih h with h | ⟨t', ht', more⟩
    · rcases mem_foldl_addExport h with h | h
      · exact .inl h
      · obtain ⟨o, ho, eq⟩ := List.mem_map.1 h
        exact .inr ⟨t, List.mem_cons_self, o, ho, doc, eq⟩
    · exact .inr ⟨t', List.mem_cons_of_mem _ ht', more⟩

/-- **The imports of a script fit its exports.** -/
theorem fits_recordOf (items : List Item) (lineCount : Nat) : (recordOf items lineCount).Fits where
  reexports e he reexport := by
    rcases mem_exportsFrom he with he | ⟨t, ht, o, ho, d, rfl⟩
    · cases he
    · -- what comments say changes neither source nor remote name
      rcases reexport_cases ho reexport with ⟨b, hb, source, remote⟩ | ⟨i, hi, m, hm, source, remote⟩
      · exact ⟨_, _, source, remote, exists_import_of_binding hb⟩
      · exact ⟨_, _, source, remote, exists_import_of_statement ht hi ⟨rfl, hm⟩⟩
  namespaces e he whole := by
    rcases mem_exportsFrom he with he | ⟨t, ht, o, ho, d, rfl⟩
    · cases he
    · have remote : o.remote = some wholeModule := remote_of_isNamespace ho whole
      exact remote
  stars specifier hs := by
    obtain ⟨t, ht, star⟩ := List.mem_filterMap.1 hs
    unfold starOf? at star
    split at star
    · obtain rfl := Option.some.inj star
      exact exists_import_of_statement ht (List.mem_singleton.2 rfl) ⟨rfl, List.mem_singleton.2 rfl⟩
    · cases star
  inside i hi := package_eq_none_iff hi

end

end Script

namespace Source

theorem exists_of_bind_eq_ok {ε α β : Type} {x : Except ε α} {f : α → Except ε β} {r : β}
    (h : (x >>= f) = .ok r) : ∃ a, x = .ok a ∧ f a = .ok r := by
  cases x with
  | error e => cases h
  | ok a => exact ⟨a, rfl, h⟩

theorem toOption_eq_some {ε α : Type} {x : Except ε α} {a : α} : x.toOption = some a ↔ x = .ok a := by
  cases x <;> simp [Except.toOption]

theorem fits_recordIn {path : String} {d : Script.Dialect} {text : List Char} {r : Record}
    (h : recordIn path d text = .ok r) : r.Fits := by
  unfold recordIn at h
  split at h
  · next r' read =>
    obtain rfl := Except.ok.inj h
    obtain ⟨items, -, rfl⟩ := Option.map_eq_some_iff.1 read
    exact Script.fits_recordOf _ _
  · cases h

/-- The imports of a source fit its exports. -/
theorem fits_record {t : FileTree} {path : String} {r : Record} (h : record t path = .ok r) :
    r.Fits := by
  obtain ⟨d, -, h⟩ := exists_of_bind_eq_ok h
  obtain ⟨text, -, h⟩ := exists_of_bind_eq_ok h
  exact fits_recordIn h

/-- **Re-exports have their imports.**  Where a text has a record, each of its re-exports names a
module and a name there, which is the whole module for a namespace, and an import of the record
takes that name from that module.  Each of its star exports has an import of the whole module. -/
theorem exists_import_of_reexport {path : String} {text : List Char} {r : Record}
    (h : recordOf path text = .ok r) :
    (∀ e ∈ r.exports, e.isReexport = true →
      ∃ s m, e.source = some s ∧ e.remote = some m ∧ (e.isNamespace = true → m = wholeModule) ∧
        ∃ i ∈ r.imports, i.specifier = s ∧ m ∈ i.names) ∧
    ∀ s ∈ r.stars, ∃ i ∈ r.imports, i.specifier = s ∧ wholeModule ∈ i.names := by
  obtain ⟨d, -, h⟩ := exists_of_bind_eq_ok h
  have fits : r.Fits := fits_recordIn h
  refine ⟨?_, fits.stars⟩
  intro e he reexport
  obtain ⟨s, m, source, remote, taken⟩ := fits.reexports e he reexport
  refine ⟨s, m, source, remote, ?_, taken⟩
  intro whole
  have stands := fits.namespaces e he whole
  rw [remote] at stands
  exact Option.some.inj stands

/-- A name that a call of the loader takes apart and binds anew, exported under a third name. -/
def unpacked : Record where
  imports := [{ specifier := "./x", names := ["a"], pos := ⟨1, 12⟩ }]
  exports := [{ name := "c", isReexport := true, remote := some "a", source := some "./x",
                pos := ⟨1, 34⟩ }]
  lineCount := 1

theorem exists_import_of_reexport_unpacked :
    recordOf "m.ts" "const{a:b}=require('./x');export{b as c}".toList = .ok unpacked ∧
      ∀ e ∈ unpacked.exports, e.isReexport = true →
        ∃ s m, e.source = some s ∧ e.remote = some m ∧ (e.isNamespace = true → m = wholeModule) ∧
          ∃ i ∈ unpacked.imports, i.specifier = s ∧ m ∈ i.names := by
  have read : recordOf "m.ts" "const{a:b}=require('./x');export{b as c}".toList
      = .ok unpacked := by
    rw [← toOption_eq_some]
    decide +kernel
  exact ⟨read, (exists_import_of_reexport read).1⟩

end Source

end ModuleAtlas
