/-
ModuleAtlas/Proofs/ImportLandings.lean

Where the imports of a file are put.

An import lands in one of three ways: it names a package, or its specifier means a file, or neither
(`landing`).  The links of a file are told by that alone (`Links.Splits`): imports from packages are
kept in their order, those that land on a file are kept for that file in their order, and of the
rest only the specifiers are kept.  One more import keeps this (`Splits.put`), so it holds of all
imports of a file.

Together with the places of `ImportPlaces` this follows an import from the text of a script to the
node of its file: none is lost on the way and none comes up twice (`imports_listed_and_split`),
except that a comment in front of a string hides a call.
-/
import ModuleAtlas.Proofs.ImportPlaces
import ModuleAtlas.Proofs.Linking

namespace ModuleAtlas

/-- What an import leads to. -/
inductive Landing where
  | package (name : String)
  | file (path : String)
  | nowhere
deriving DecidableEq

namespace Landing

/-- The package that is led to. -/
def package? : Landing → Option String
  | .package name => some name
  | _ => none

/-- The file that is led to. -/
def file? : Landing → Option String
  | .file path => some path
  | _ => none

end Landing

/-- What an import leads to, by what the specifiers mean: its package counts first. -/
def landing (means : String → Option String) (i : Import) : Landing :=
  match i.package, means i.specifier with
  | some name, _ => .package name
  | none, some path => .file path
  | none, none => .nowhere

namespace Links

variable {means : String → Option String} {l : Links} {is : List Import}

/-- The files that imports land on, each once. -/
def landings (means : String → Option String) (is : List Import) : List String :=
  (is.filterMap fun i => (landing means i).file?).eraseDups

/-- The imports that land on a file, in their order and with what their specifiers mean. -/
def landed (means : String → Option String) (is : List Import) (path : String) : List Import :=
  (is.filter fun i => landing means i = .file path).map fun i => { i with resolved := some path }

/-- The links have each of the imports where it lands, and nothing else. -/
structure Splits (means : String → Option String) (is : List Import) (l : Links) : Prop where
  /-- The imports from packages, as they come. -/
  packaged : l.packaged = is.filter fun i => (landing means i).package?.isSome
  /-- The packages, each once. -/
  external : l.external = (is.filterMap fun i => (landing means i).package?).eraseDups
  /-- The files, each with the imports that land on it. -/
  internal : l.internal = (landings means is).map fun path => (path, landed means is path)
  /-- The specifiers of the imports that land nowhere, each once. -/
  unresolved : l.unresolved =
    ((is.filter fun i => landing means i = .nowhere).map Import.specifier).eraseDups

theorem eraseDups_concat {α : Type} [BEq α] [LawfulBEq α] (xs : List α) (x : α) :
    (xs ++ [x]).eraseDups = insertNew xs.eraseDups x :=
  (foldl_insertNew_eraseDups xs [x]).symm

theorem landings_concat (i : Import) :
    landings means (is ++ [i]) =
      match (landing means i).file? with
      | some path => insertNew (landings means is) path
      | none => landings means is := by
  unfold landings
  rw [List.filterMap_append]
  cases h : (landing means i).file? with
  | none => simp [h]
  | some path => simp [h, eraseDups_concat]

theorem landed_concat (i : Import) (path : String) :
    landed means (is ++ [i]) path =
      landed means is path ++
        if landing means i = .file path then [{ i with resolved := some path }] else [] := by
  unfold landed
  rw [List.filter_append, List.map_append]
  split
  · next here => simp [here]
  · next other => simp [other]

theorem landed_of_notMem {path : String} (other : path ∉ landings means is) :
    landed means is path = [] := by
  unfold landed
  rw [List.map_eq_nil_iff, List.filter_eq_nil_iff]
  intro i hi lands
  refine other (List.mem_eraseDups.2 (List.mem_filterMap.2 ⟨i, hi, ?_⟩))
  rw [of_decide_eq_true lands]
  rfl

/-- One more import for a file joins those that land there, or makes the file the last one. -/
theorem add_landed {i : Import} {target : String} (here : landing means i = .file target) :
    Targets.add ((landings means is).map fun path => (path, landed means is path)) target
        { i with resolved := some target } =
      (landings means (is ++ [i])).map fun path => (path, landed means (is ++ [i]) path) := by
  have listed : ((landings means is).map fun path => (path, landed means is path)).any
      (fun t => t.1 == target) = (landings means is).contains target := by
    rw [← contains_map_key Prod.fst, List.map_map]
    exact congrArg (List.contains · target) (List.map_id _)
  unfold Targets.add
  rw [listed, landings_concat, here]
  show _ = (insertNew (landings means is) target).map _
  unfold insertNew
  split
  · -- the list of files stays, and only the entry of the target changes
    rw [List.map_map]
    apply List.map_congr_left
    intro path _
    rw [landed_concat, here]
    by_cases same : path = target
    · simp [same]
    · simp [same, Ne.symm same]
  · next new =>
    have other : target ∉ landings means is := fun h => new (List.contains_iff_mem.2 h)
    rw [List.map_append, List.map_singleton, landed_concat, if_pos here, landed_of_notMem other,
      List.nil_append]
    congr 1
    apply List.map_congr_left
    intro path listed
    rw [landed_concat, here, if_neg, List.append_nil]
    rintro ⟨⟩
    exact other listed

theorem put_eq (means : String → Option String) (l : Links) (i : Import) :
    l.put means i =
      match landing means i with
      | .package name => l.addExternal name i
      | .file path => l.addInternal path { i with resolved := some path }
      | .nowhere => l.addUnresolved i.specifier := by
  unfold put landing
  cases i.package with
  | some name => rfl
  | none => cases means i.specifier <;> rfl

theorem splits_nil : Splits means [] {} := ⟨rfl, rfl, rfl, rfl⟩

/-- One more import is put where it lands, and all others stay. -/
theorem Splits.put (h : Splits means is l) (i : Import) :
    Splits means (is ++ [i]) (l.put means i) := by
  -- what an import does not land on has the same imports as before
  have apart : (∀ path, landing means i ≠ .file path) →
      (landings means is).map (fun path => (path, landed means is path)) =
        (landings means (is ++ [i])).map fun path => (path, landed means (is ++ [i]) path) := by
    intro other
    have none : (landing means i).file? = none := by
      cases lands : landing means i with
      | file path => exact absurd lands (other path)
      | _ => rfl
    rw [landings_concat, none]
    apply List.map_congr_left
    intro path _
    rw [landed_concat, if_neg (other path), List.append_nil]
  rw [put_eq]
  cases lands : landing means i with
  | package name =>
    refine ⟨?_, ?_, ?_, ?_⟩
    · simp [addExternal, h.packaged, lands, Landing.package?]
    · simp [addExternal, h.external, lands, Landing.package?, eraseDups_concat]
    · exact h.internal.trans (apart (by simp [lands]))
    · simp [addExternal, h.unresolved, lands]
  | file path =>
    refine ⟨?_, ?_, ?_, ?_⟩
    · simp [addInternal, h.packaged, lands, Landing.package?]
    · simp [addInternal, h.external, lands, Landing.package?]
    · rw [← add_landed lands, ← h.internal]
      rfl
    · simp [addInternal, h.unresolved, lands]
  | nowhere =>
    refine ⟨?_, ?_, ?_, ?_⟩
    · simp [addUnresolved, h.packaged, lands, Landing.package?]
    · simp [addUnresolved, h.external, lands, Landing.package?]
    · exact h.internal.trans (apart (by simp [lands]))
    · simp [addUnresolved, h.unresolved, lands, eraseDups_concat]

/-- **The links of imports have each of them where it lands.** -/
theorem splits_ofImports (means : String → Option String) (is : List Import) :
    Splits means is (ofImports means is) := by
  have run : ∀ (done more : List Import) (l : Links), Splits means done l →
      Splits means (done ++ more) (more.foldl (Links.put means) l) := by
    intro done more
    induction more generalizing done with
    | nil => exact fun l h => by rwa [List.append_nil]
    | cons i more ih =>
      intro l h
      have step := ih (done ++ [i]) (l.put means i) (h.put i)
      rwa [List.append_assoc, List.singleton_append] at step
  exact run [] is {} splits_nil

end Links

namespace Script

/-- **No import is lost and none comes up twice.**  The record of a script has one import for each
place of it that tells of one, in reading order: a statement at the top level that takes from
another module, or a call of the loader for a string at any depth.  A call with a comment in front
of its string has none.  Whatever a builder makes of the record, each import is in one part of the
links of the file: with those from packages, with those for the file that its specifier means, or
else by its specifier with those that lead nowhere; and each part keeps the order. -/
theorem imports_listed_and_split {d : Dialect} {text : List Char} {r : Record}
    (read : read? d text = some r) :
    ∃ items, parse? d text = some items ∧
      Listed (fun place i => ∃ j, Tells (statements items) place 0 j ∧ i = withPackage j)
        r.imports ∧
      (∀ place n i j, Tells (statements items) place (n + 1) i →
        ¬ Tells (statements items) place 0 j) ∧
      r.imports.Pairwise (fun a b => a.pos.le b.pos = true) ∧
      ∀ (b : Builder) (t : FileTree) (path : String),
        Links.Splits (b.meaning t (Path.folder path)) r.imports (b.node t path r).1.links := by
  obtain ⟨items, parsed, rfl⟩ := Option.map_eq_some_iff.1 read
  refine ⟨items, parsed, listed_imports _, fun _ _ _ _ => Tells.hidden, ordered_imports _, ?_⟩
  intro b t path
  rw [(Builder.node_spec b t path _).1]
  exact Links.splits_ofImports _ _

/-- A call of the loader with one comment in front of its string: where it is and what it is for. -/
def Spot.behindComment? (s : Spot) : Option (Position × String) :=
  match s.tree with
  | .call pos .loader _ (.remark :: .quoted specifier :: _) => some (pos, specifier)
  | _ => none

theorem Spot.loads_of_behindComment? {s : Spot} {pos : Position} {specifier : String}
    (h : s.behindComment? = some (pos, specifier)) :
    s.Loads 1 { specifier, names := [wholeModule], dynamic := true, pos } := by
  unfold behindComment? at h
  split at h
  · next pos' types specifier' more eq =>
    cases h
    exact ⟨pos, .loader, types, specifier, more, eq, .inl ⟨rfl, rfl⟩⟩
  · cases h

/-- The text of a call with two calls of the loader inside, the second one in a function and with a
comment. -/
def loadsInside : List Char := "run(require('./y'), () => import(/* later */ './x'))".toList

/-- The record of that text: the call behind the comment is not in it. -/
def loadedInside : Record where
  imports := [{ specifier := "./y", names := [wholeModule], pos := ⟨1, 5⟩ }]
  exports := []
  lineCount := 1

/-- Of the two calls of the loader inside another call, the one without a comment is the only one
that a place tells of, in the script and in every node that is made of its record. -/
theorem imports_listed_and_split_inside :
    read? .typescript loadsInside = some loadedInside ∧
      ∃ items, parse? .typescript loadsInside = some items ∧
        Tells (statements items) [0, 0, 2, 0] 1
          { specifier := "./x", names := [wholeModule], dynamic := true, pos := ⟨1, 27⟩ } ∧
        (∀ j, ¬ Tells (statements items) [0, 0, 2, 0] 0 j) ∧
        Listed (fun place i => ∃ j, Tells (statements items) place 0 j ∧ i = withPackage j)
          loadedInside.imports ∧
        ∀ (b : Builder) (t : FileTree) (path : String),
          Links.Splits (b.meaning t (Path.folder path)) loadedInside.imports
            (b.node t path loadedInside).1.links := by
  have read : read? .typescript loadsInside = some loadedInside := by decide +kernel
  have seen : ((parse? .typescript loadsInside).bind fun items =>
      ((Spot.free (.group (statements items))).at? [0, 0, 2, 0]).bind Spot.behindComment?) =
        some (⟨1, 27⟩, "./x") := by
    decide +kernel
  obtain ⟨items, parsed, listed, hidden, -, splits⟩ := imports_listed_and_split read
  rw [parsed, Option.bind_some] at seen
  obtain ⟨s, there, behind⟩ := Option.bind_eq_some_iff.1 seen
  have tells := Tells.call there (Spot.loads_of_behindComment? behind)
  exact ⟨read, items, parsed, tells, fun j => hidden _ 0 _ j tells, listed, splits⟩

end Script

end ModuleAtlas
