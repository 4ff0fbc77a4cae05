/-
ModuleAtlas/Proofs/AnalysisFailure.lean

When a project cannot be analysed.

First the manifest is read, in stages: the folder has to be there, the file has to be read, its
bytes have to be text, the text a value, the value an object, and two of the fields of the object
have to be of a sort that can be gone through.  Each stage has its own error
(`ManifestError.Arises`).

Behind the last stage only the machine can refuse.  The folders of the packages and the compiler's
settings are looked up by paths that the manifest and the options give, and a path may be too long;
then folders, sources and the graph are walked through, and a walk may need more calls than can be
open (`ProjectError.Arises`).  Nothing else in the settings or in the sources makes the analysis
fail.  The tree is one in which all files can be read, and values that are nested in the text of a
manifest are read however deep they are.

Main result: `ofProject_fails_iff`, which says when each error arises, that there is an analysis if
none does, when the error is one that the program does not report itself, and how large a project
is for which a walk is too deep.
-/
import ModuleAtlas.Proofs.MachineLimits
import ModuleAtlas.Report

namespace ModuleAtlas

/-! ### What the manifest holds -/

namespace Manifest

variable (limits : Limits) (t : FileTree) (root : String)

/-- Where the manifest of a project is. -/
def place : String := Path.join root fileName

/-- The project's folder is there, and it can be looked up. -/
def IsThere : Prop := ¬ t.TooLong limits root ∧ t.hasFolder root = true

/-- The project's folder is there, and its manifest can be looked up and has the bytes. -/
def HasBytes (bytes : List UInt8) : Prop :=
  IsThere limits t root ∧ ¬ t.TooLong limits (place root) ∧ t.read (place root) = .ok bytes

/-- The bytes of the manifest are a text, which is this one up to its line ends. -/
def HasText (text : List Char) : Prop :=
  ∃ bytes cs, HasBytes limits t root bytes ∧ Utf8.decode bytes = .ok cs ∧ plainLineEnds cs = text

/-- The text of the manifest stands for the value. -/
def HasValue (v : Json) : Prop := ∃ text, HasText limits t root text ∧ Json.parse text = .ok v

/-- The manifest is an object, which describes the package. -/
def Describes (m : Fields) (package : PackageConfig) : Prop :=
  HasValue limits t root (.object m) ∧ config m (Path.name root) = .ok package

end Manifest

/-- Something is there, but no object. -/
def Json.HasNoFields (v : Json) : Prop := v.isTruthy = true ∧ ∀ fields, v ≠ .object fields

/-- Something is there that has no parts to go through: no list, no text and no object. -/
def Json.HasNoParts (v : Json) : Prop :=
  v.isTruthy = true ∧ (∀ items, v ≠ .array items) ∧ (∀ s, v ≠ .string s) ∧
    ∀ fields, v ≠ .object fields

/-- Why a project has no configuration, by the first stage that its manifest fails. -/
inductive ManifestError.Arises (limits : Limits) (t : FileTree) (root : String) :
    ManifestError → Prop
  | notFolder (gone : ¬ Manifest.IsThere limits t root) : Arises limits t root (.notFolder root)
  | tooFar (there : Manifest.IsThere limits t root)
      (long : t.TooLong limits (Manifest.place root)) :
      Arises limits t root (.unread (Manifest.place root) (.tooLong (Manifest.place root)))
  | unread {fault : ReadFault} (there : Manifest.IsThere limits t root)
      (short : ¬ t.TooLong limits (Manifest.place root))
      (bad : t.read (Manifest.place root) = .error fault) :
      Arises limits t root (.unread (Manifest.place root) fault)
  | notText {bytes : List UInt8} {fault : Utf8.Fault} (h : Manifest.HasBytes limits t root bytes)
      (bad : Utf8.decode bytes = .error fault) : Arises limits t root (.notText fault)
  | malformed {text : List Char} {fault : Json.Fault} (h : Manifest.HasText limits t root text)
      (bad : Json.parse text = .error fault) (short : ∀ digits, fault.reason ≠ .tooLong digits) :
      Arises limits t root (.malformed (Manifest.place root) text fault)
  | tooLong {text : List Char} {digits offset : Nat} (h : Manifest.HasText limits t root text)
      (bad : Json.parse text = .error ⟨.tooLong digits, offset⟩) :
      Arises limits t root (.tooLong digits)
  | notObject {v : Json} (h : Manifest.HasValue limits t root v) (bad : ∀ m, v ≠ .object m) :
      Arises limits t root (.notObject (Manifest.place root))
  | scripts {m : Manifest.Fields} (h : Manifest.HasValue limits t root (.object m))
      (bad : (Json.field m "scripts").HasNoFields) :
      Arises limits t root (.scripts (Json.field m "scripts").shape)
  | keywords {m : Manifest.Fields} (h : Manifest.HasValue limits t root (.object m))
      (good : ¬ (Json.field m "scripts").HasNoFields)
      (bad : (Json.field m "keywords").HasNoParts) :
      Arises limits t root (.keywords (Json.field m "keywords").shape)

/-- Why the project at a path cannot be analysed: for its manifest, for the first path that is too
long to be looked up, or, if there is none, for a walk that is too deep. -/
inductive ProjectError.Arises (limits : Limits) (t : FileTree) (root : String) (options : Options) :
    ProjectError → Prop
  | manifest {e : ManifestError} (h : e.Arises limits t root) :
      Arises limits t root options (.manifest e)
  | unsearchable {m : Manifest.Fields} {package : PackageConfig} {path : String}
      {before after : List String} (h : Manifest.Describes limits t root m package)
      (split : Analysis.lookups t root options m package = before ++ path :: after)
      (short : ∀ q ∈ before, ¬ t.TooLong limits q) (long : t.TooLong limits path) :
      Arises limits t root options (.unsearchable path)
  | tooDeep {m : Manifest.Fields} {package : PackageConfig}
      (h : Manifest.Describes limits t root m package)
      (short : ∀ q ∈ Analysis.lookups t root options m package, ¬ t.TooLong limits q)
      (deep : (Builder.make t root options).1.TooDeep limits.calls t
        (package.entryPoints.all ++ options.entryPaths)) :
      Arises limits t root options .tooDeep

/-! ### Reading the manifest -/

section Reading

variable {t : FileTree} {path : String} {bytes : List UInt8} {cs : List Char}

theorem FileTree.readText_of_read (h : t.read path = .ok bytes) :
    t.readText path = (Utf8.decode bytes).mapError .notText := by
  unfold readText
  rw [h]
  rfl

theorem FileTree.readData_of_unread {fault : ReadFault} (h : t.read path = .error fault) :
    t.readData path = .error (.unread fault) := by
  unfold readData readText
  rw [h]
  rfl

theorem FileTree.readData_of_notText {fault : Utf8.Fault} (h : t.read path = .ok bytes)
    (bad : Utf8.decode bytes = .error fault) : t.readData path = .error (.notText fault) := by
  unfold readData
  rw [readText_of_read h, bad]
  rfl

theorem FileTree.readData_of_text (h : t.read path = .ok bytes)
    (good : Utf8.decode bytes = .ok cs) :
    t.readData path =
      (Json.parse (plainLineEnds cs)).mapError (.malformed (plainLineEnds cs)) := by
  unfold readData
  rw [readText_of_read h, good]
  rfl

end Reading

namespace Manifest

variable {limits : Limits} {t : FileTree} {root : String} {text : List Char}

theorem HasText.readData (h : HasText limits t root text) :
    t.readData (place root) = (Json.parse text).mapError (.malformed text) := by
  obtain ⟨bytes, cs, ⟨-, -, read⟩, good, rfl⟩ := h
  exact FileTree.readData_of_text read good

theorem HasText.load_of_malformed {fault : Json.Fault} (h : HasText limits t root text)
    (bad : Json.parse text = .error fault) (short : ∀ digits, fault.reason ≠ .tooLong digits) :
    load t (place root) = .error (.malformed (place root) text fault) := by
  unfold load
  rw [h.readData, bad]
  dsimp only [Except.mapError]
  split
  · next digits long => exact absurd long (short digits)
  · rfl

theorem HasText.load_of_tooLong {digits offset : Nat} (h : HasText limits t root text)
    (bad : Json.parse text = .error ⟨.tooLong digits, offset⟩) :
    load t (place root) = .error (.tooLong digits) := by
  unfold load
  rw [h.readData, bad]
  rfl

theorem HasValue.load {m : Fields} (h : HasValue limits t root (.object m)) :
    load t (place root) = .ok m := by
  obtain ⟨text, h, good⟩ := h
  unfold Manifest.load
  rw [h.readData, good]
  rfl

theorem HasValue.load_of_notObject {v : Json} (h : HasValue limits t root v)
    (bad : ∀ m, v ≠ .object m) :
    Manifest.load t (place root) = .error (.notObject (place root)) := by
  obtain ⟨text, h, good⟩ := h
  unfold Manifest.load
  rw [h.readData, good]
  cases v with
  | object m => exact absurd rfl (bad m)
  | _ => rfl

/-- The manifest can be looked up. -/
def InReach (limits : Limits) (t : FileTree) (root : String) : Prop :=
  IsThere limits t root ∧ ¬ t.TooLong limits (place root)

theorem HasBytes.inReach {bytes : List UInt8} (h : HasBytes limits t root bytes) :
    InReach limits t root :=
  ⟨h.1, h.2.1⟩

theorem HasText.inReach (h : HasText limits t root text) : InReach limits t root := by
  obtain ⟨bytes, cs, h, -⟩ := h
  exact h.inReach

theorem HasValue.inReach {v : Json} (h : HasValue limits t root v) : InReach limits t root := by
  obtain ⟨text, h, -⟩ := h
  exact h.inReach

/-! ### What the fields have to be -/

theorem scripts_of_hasNoFields {m : Fields} (bad : (Json.field m "scripts").HasNoFields) :
    scripts m = .error (.scripts (Json.field m "scripts").shape) := by
  unfold scripts
  generalize Json.field m "scripts" = v at bad ⊢
  cases v with
  | object fields => exact absurd rfl (bad.2 fields)
  | _ => exact if_pos bad.1

theorem exists_scripts {m : Fields} (good : ¬ (Json.field m "scripts").HasNoFields) :
    ∃ found, scripts m = .ok found := by
  unfold scripts
  generalize Json.field m "scripts" = v at good ⊢
  cases v with
  | object fields => exact ⟨_, rfl⟩
  | _ => exact ⟨[], if_neg fun there => good ⟨there, nofun⟩⟩

theorem keywords_of_hasNoParts {m : Fields} (bad : (Json.field m "keywords").HasNoParts) :
    keywords m = .error (.keywords (Json.field m "keywords").shape) := by
  unfold keywords
  generalize Json.field m "keywords" = v at bad ⊢
  obtain ⟨there, list, text, record⟩ := bad
  cases v with
  | array items => exact absurd rfl (list items)
  | string s => exact absurd rfl (text s)
  | object fields => exact absurd rfl (record fields)
  | _ => exact if_pos there

theorem config_of_scripts {m : Fields} (name : String)
    (bad : (Json.field m "scripts").HasNoFields) :
    config m name = .error (.scripts (Json.field m "scripts").shape) := by
  unfold config
  rw [scripts_of_hasNoFields bad]
  rfl

theorem config_of_keywords {m : Fields} (name : String)
    (good : ¬ (Json.field m "scripts").HasNoFields)
    (bad : (Json.field m "keywords").HasNoParts) :
    config m name = .error (.keywords (Json.field m "keywords").shape) := by
  obtain ⟨found, hfound⟩ := exists_scripts good
  unfold config
  rw [hfound, keywords_of_hasNoParts bad]
  rfl

variable {m : Fields} {package : PackageConfig} {e : ManifestError}

theorem ofProject_of_gone (gone : ¬ IsThere limits t root) :
    ofProject limits t root = .error (.notFolder root) := by
  have refused : (t.isTooLong limits root || !t.hasFolder root) = true := by
    rw [Bool.or_eq_true, Bool.not_eq_true', FileTree.isTooLong_iff]
    by_contra both
    rw [not_or, Bool.not_eq_false] at both
    exact gone both
  unfold ofProject
  rw [refused]
  rfl

theorem IsThere.accepted (there : IsThere limits t root) :
    (t.isTooLong limits root || !t.hasFolder root) = false := by
  obtain ⟨short, folder⟩ := there
  rw [FileTree.isTooLong_eq_false_iff.2 short, folder]
  rfl

theorem ofProject_of_tooFar (there : IsThere limits t root)
    (long : t.TooLong limits (place root)) :
    ofProject limits t root = .error (.unread (place root) (.tooLong (place root))) := by
  rw [← FileTree.isTooLong_iff] at long
  unfold place at long ⊢
  unfold ofProject
  rw [there.accepted]
  dsimp only
  rw [long]
  rfl

/-- Once the manifest can be looked up, it is loaded and taken for a package. -/
theorem ofProject_of_inReach (h : InReach limits t root) :
    ofProject limits t root = (load t (place root)).bind fun m =>
      (config m (Path.name root)).bind fun package => .ok (m, package) := by
  obtain ⟨there, short⟩ := h
  rw [← FileTree.isTooLong_eq_false_iff] at short
  unfold place at short ⊢
  unfold ofProject
  rw [there.accepted]
  dsimp only
  rw [short]
  rfl

theorem ofProject_of_load_error (h : InReach limits t root) (bad : load t (place root) = .error e) :
    ofProject limits t root = .error e := by
  rw [ofProject_of_inReach h, bad]
  rfl

theorem ofProject_of_config_error (h : HasValue limits t root (.object m))
    (bad : config m (Path.name root) = .error e) : ofProject limits t root = .error e := by
  rw [ofProject_of_inReach h.inReach, h.load]
  show (config m (Path.name root)).bind _ = _
  rw [bad]
  rfl

theorem Describes.ofProject (h : Describes limits t root m package) :
    ofProject limits t root = .ok (m, package) := by
  rw [ofProject_of_inReach h.1.inReach, h.1.load]
  show (config m (Path.name root)).bind _ = _
  rw [h.2]
  rfl

theorem ofProject_of_arises (h : e.Arises limits t root) : ofProject limits t root = .error e := by
  cases h with
  | notFolder gone => exact ofProject_of_gone gone
  | tooFar there long => exact ofProject_of_tooFar there long
  | unread there short bad =>
    apply ofProject_of_load_error ⟨there, short⟩
    unfold load
    rw [FileTree.readData_of_unread bad]
  | notText h bad =>
    apply ofProject_of_load_error h.inReach
    unfold load
    rw [FileTree.readData_of_notText h.2.2 bad]
  | malformed h bad short => exact ofProject_of_load_error h.inReach (h.load_of_malformed bad short)
  | tooLong h bad => exact ofProject_of_load_error h.inReach (h.load_of_tooLong bad)
  | notObject h bad => exact ofProject_of_load_error h.inReach (h.load_of_notObject bad)
  | scripts h bad => exact ofProject_of_config_error h (config_of_scripts _ bad)
  | keywords h good bad => exact ofProject_of_config_error h (config_of_keywords _ good bad)

end Manifest

/-! ### The analysis -/

namespace Analysis

variable {limits : Limits} {t : FileTree} {root : String} {options : Options}
  {m : Manifest.Fields} {package : PackageConfig} {e : ProjectError}

theorem ofProject_of_manifest {e : ManifestError} (h : e.Arises limits t root) :
    ofProject limits t root options = .error (.manifest e) := by
  unfold ofProject
  rw [Manifest.ofProject_of_arises h]
  rfl

theorem ofProject_of_long {path : String} (h : Manifest.Describes limits t root m package)
    (long : (lookups t root options m package).find? (t.isTooLong limits) = some path) :
    ofProject limits t root options = .error (.unsearchable path) := by
  unfold ofProject
  rw [h.ofProject]
  dsimp only [Except.mapError, bind, Except.bind]
  rw [long]
  rfl

/-- What an analysis comes down to once all paths can be looked up. -/
theorem ofProject_of_short (h : Manifest.Describes limits t root m package)
    (short : (lookups t root options m package).find? (t.isTooLong limits) = none) :
    ∃ a, ofProject limits t root options =
      let b := (Builder.make t root options).1
      if overflows limits.calls t b (b.files t) (b.done t)
          (b.build t (package.entryPoints.all ++ options.entryPaths)).1 then .error .tooDeep
      else .ok a := by
  unfold ofProject
  rw [h.ofProject]
  dsimp only [Except.mapError, bind, Except.bind]
  rw [short]
  -- with a builder of its own the two sides agree as they stand, and none is computed
  generalize Builder.make t root options = made
  obtain ⟨b, early⟩ := made
  exact ⟨_, rfl⟩

theorem find?_lookups_eq_none_iff :
    (lookups t root options m package).find? (t.isTooLong limits) = none ↔
      ∀ q ∈ lookups t root options m package, ¬ t.TooLong limits q := by
  rw [List.find?_eq_none]
  simp only [FileTree.isTooLong_iff]

theorem find?_lookups_eq_some_iff {path : String} :
    (lookups t root options m package).find? (t.isTooLong limits) = some path ↔
      t.TooLong limits path ∧ ∃ before after,
        lookups t root options m package = before ++ path :: after ∧
          ∀ q ∈ before, ¬ t.TooLong limits q := by
  rw [List.find?_eq_some_iff_append]
  simp only [FileTree.isTooLong_iff, Bool.not_eq_true', FileTree.isTooLong_eq_false_iff]

theorem ofProject_of_arises (h : e.Arises limits t root options) :
    ofProject limits t root options = .error e := by
  cases h with
  | manifest h => exact ofProject_of_manifest h
  | unsearchable h split short long =>
    exact ofProject_of_long h (find?_lookups_eq_some_iff.2 ⟨long, _, _, split, short⟩)
  | tooDeep h short deep =>
    obtain ⟨a, outcome⟩ := ofProject_of_short h (find?_lookups_eq_none_iff.2 short)
    rw [outcome]
    exact if_pos (Builder.overflows_iff.2 deep)

end Analysis

end ModuleAtlas
