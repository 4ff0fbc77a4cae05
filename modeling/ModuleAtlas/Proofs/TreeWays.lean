/-
ModuleAtlas/Proofs/TreeWays.lean

Ways down a tree, name by name.

A way is a list of names, each of which stands for an entry of a folder (`Path.IsWay`).  From a
folder at a path it leads to the path with these names joined to it (`Path.along`), and in the tree
to the entry of the last name within that of the one before it, and so on (`FileTree.at?`).

The two agree (`find?_along`): to follow a joined path is to follow the path of the folder and then
the names.  From the names alone one can tell how the joined path looks from the folder
(`relative_along`), and whether it is left out for its place (`isSkipped_along`).

A tree is proper if the entries of each folder have names of their own that can be followed.  So are
the trees that a disk can hold: the empty one, and each that comes of a proper one by a change
(`Proper.change`).  In a proper tree a way to a file is made of entries that are listed
(`holdsFile_cons_iff`).
-/
import Mathlib.Data.List.Basic
import ModuleAtlas.Graph.Discovery
import ModuleAtlas.Graph.Node
import ModuleAtlas.Proofs.PlainPath

namespace ModuleAtlas

namespace Path

variable {root path name : String} {way : List String}

/-- Names of entries, one within the other. -/
structure IsWay (way : List String) : Prop where
  some : way ≠ []
  steps : ∀ name ∈ way, IsStep name.toList

instance (way : List String) : Decidable (IsWay way) :=
  decidable_of_iff (way ≠ [] ∧ ∀ name ∈ way, IsStep name.toList)
    ⟨fun h => ⟨h.1, h.2⟩, fun h => ⟨h.some, h.steps⟩⟩

/-- Where a way leads from the folder at a path. -/
def along (root : String) (way : List String) : String := way.foldl join root

/-- The text of a way, with slashes only. -/
def spelled (way : List String) : String :=
  slashed (String.ofList (ofSegments (way.map String.toList)))

/-! ### Joined paths -/

theorem IsStep.isAbsolute (step : IsStep name.toList) : isAbsolute name = false := by
  unfold Path.isAbsolute
  rw [beq_eq_false_iff_ne]
  intro first
  exact step.single (List.mem_of_mem_head? first)

theorem IsStep.segments (step : IsStep name.toList) : segments name.toList = [name.toList] :=
  Text.split_of_notMem step.single

theorem steps_join (absolute : isAbsolute root = true) (step : IsStep name.toList) :
    steps (join root name) = steps root ++ [name.toList] := by
  have single : ∀ p ∈ [name.toList], IsStep p := by
    intro p hp
    obtain rfl := List.mem_singleton.1 hp
    exact step
  rw [steps_eq_normalSegments (isAbsolute_join absolute step.isAbsolute),
    normalSegments_join absolute step.isAbsolute, step.segments,
    foldl_pushSegment_of_isStep single]
  simp

/-- The segments of a path that are no mere repetition of slashes or dots. -/
def moving (s : String) : List (List Char) :=
  (segments s.toList).filter fun p => p ≠ [] && p ≠ here

theorem moving_eq_filter (s : String) :
    moving s = ((segments s.toList).filter (· ≠ [])).filter (· ≠ here) := by
  rw [List.filter_filter]
  exact List.filter_congr fun part _ => Bool.and_comm _ _

theorem moving_join (absolute : isAbsolute root = true) (given : isAbsolute path = false) :
    moving (join root path) = moving root ++ moving path := by
  unfold moving
  rcases segments_join absolute given with ⟨front, eq, joined⟩ | joined
  · rw [eq, joined, List.filter_append, List.filter_append]
    simp
  · rw [joined, List.filter_append]

theorem moving_join_step (absolute : isAbsolute root = true) (step : IsStep name.toList) :
    moving (join root name) = moving root ++ [name.toList] := by
  rw [moving_join absolute step.isAbsolute]
  unfold moving
  rw [step.segments]
  simp [step.full, step.moves]

theorem leadingSlashes_append {cs : List Char} {c : Char} (some : cs ≠ []) (other : c ≠ '/')
    (rest : List Char) : leadingSlashes (cs ++ c :: rest) = leadingSlashes cs := by
  match cs with
  | [] => exact absurd rfl some
  | [a] => by_cases ha : a = '/' <;> simp [leadingSlashes, ha, other]
  | [a, b] =>
    by_cases ha : a = '/' <;> by_cases hb : b = '/' <;> simp [leadingSlashes, ha, hb, other]
  | a :: b :: d :: more =>
    by_cases ha : a = '/' <;> by_cases hb : b = '/' <;> by_cases hd : d = '/' <;>
      simp [leadingSlashes, ha, hb, hd]

theorem leadingSlashes_join (absolute : isAbsolute root = true) (given : isAbsolute path = false) :
    leadingSlashes (join root path).toList = leadingSlashes root.toList := by
  have text := toList_ne_nil absolute
  rw [toList_join absolute given]
  by_cases ends : root.toList.getLast? = some '/'
  · rw [if_pos ends]
    unfold isAbsolute at given
    cases eq : path.toList with
    | nil => rw [List.append_nil]
    | cons c rest =>
      rw [eq] at given
      have other : c ≠ '/' := by
        rintro rfl
        cases given
      exact leadingSlashes_append text other rest
  · -- what ends the root is no slash, so the slashes in front end before it
    have last := List.dropLast_append_getLast text
    have other : root.toList.getLast text ≠ '/' := by
      intro slash
      exact ends (by rw [List.getLast?_eq_getLast_of_ne_nil text, slash])
    have front : root.toList.dropLast ≠ [] := by
      intro empty
      rw [empty, List.nil_append] at last
      unfold isAbsolute at absolute
      rw [← last] at absolute
      exact other (Option.some.inj (eq_of_beq absolute))
    rw [if_neg ends]
    conv_lhs => rw [← last]
    conv_rhs => rw [← last]
    rw [List.append_assoc, List.singleton_append, leadingSlashes_append front other,
      leadingSlashes_append front other]

theorem parts_eq (absolute : isAbsolute root = true) :
    parts root = List.replicate (leadingSlashes root.toList) '/' :: moving root := by
  unfold parts
  dsimp only
  rw [if_pos (leadingSlashes_pos absolute)]
  rfl

theorem parts_join (absolute : isAbsolute root = true) (step : IsStep name.toList) :
    parts (join root name) = parts root ++ [name.toList] := by
  rw [parts_eq absolute, parts_eq (isAbsolute_join absolute step.isAbsolute),
    moving_join_step absolute step, leadingSlashes_join absolute step.isAbsolute]
  rfl

/-! ### Names one after the other -/

/-- What one name is put behind, all names of a way are put behind. -/
theorem append_along {f : String → List (List Char)}
    (put : ∀ {root name : String}, isAbsolute root = true → IsStep name.toList →
      f (join root name) = f root ++ [name.toList])
    (absolute : isAbsolute root = true) (names : ∀ name ∈ way, IsStep name.toList) :
    f (along root way) = f root ++ way.map String.toList := by
  induction way generalizing root with
  | nil => exact (List.append_nil _).symm
  | cons name way ih =>
    have step := names name List.mem_cons_self
    show f (along (join root name) way) = _
    rw [ih (isAbsolute_join absolute step.isAbsolute)
        fun n hn => names n (List.mem_cons_of_mem name hn),
      put absolute step, List.append_assoc]
    rfl

/-- **Different ways lead to different paths.** -/
theorem along_injective {v w : List String} (absolute : isAbsolute root = true)
    (hv : ∀ name ∈ v, IsStep name.toList) (hw : ∀ name ∈ w, IsStep name.toList)
    (same : along root v = along root w) : v = w := by
  have moves : steps root ++ v.map String.toList = steps root ++ w.map String.toList := by
    rw [← append_along steps_join absolute hv, ← append_along steps_join absolute hw, same]
  exact List.map_injective_iff.2 (fun _ _ => String.toList_inj.1) (List.append_cancel_left moves)

/-- **From the folder one sees the names.** -/
theorem relative_along (absolute : isAbsolute root = true) (h : IsWay way) :
    relative (along root way) root = spelled way := by
  have some : (way.map String.toList).isEmpty = false := by
    rw [List.isEmpty_eq_false_iff]
    exact fun none => h.some (List.map_eq_nil_iff.1 none)
  unfold relative spelled
  rw [append_along steps_join absolute h.steps, way_append]
  dsimp only
  rw [some, if_neg Bool.false_ne_true]

theorem below?_along (absolute : isAbsolute root = true)
    (names : ∀ name ∈ way, IsStep name.toList) :
    below? root (along root way) = some (way.map String.toList) := by
  have front : (parts root).isEmpty = false := by
    rw [parts_eq absolute]
    rfl
  unfold below?
  dsimp only
  rw [append_along parts_join absolute names, front, if_pos, List.drop_left]
  simp

theorem lastPart_along (absolute : isAbsolute root = true) (h : IsWay way) :
    lastPart (along root way) = (way.getLast h.some).toList := by
  show (moving (along root way)).getLast?.getD [] = _
  rw [append_along moving_join_step absolute h.steps, List.getLast?_append, List.getLast?_map,
    List.getLast?_eq_getLast_of_ne_nil h.some]
  rfl

end Path

/-- **A path is left out for its place** if one of the names on the way to it is ignored. -/
theorem Discovery.isSkipped_along {root : String} {way : List String}
    (absolute : Path.isAbsolute root = true) (h : Path.IsWay way) :
    isSkipped root (Path.along root way) = way.any ignored.contains := by
  have inside : ((way.map String.toList).dropLast.any fun p => ignored.contains (String.ofList p))
      = way.dropLast.any ignored.contains := by
    rw [← List.map_dropLast, List.any_map]
    exact congrArg way.dropLast.any (funext fun name => by simp)
  unfold isSkipped
  rw [Path.below?_along absolute h.steps, Path.lastPart_along absolute h,
    String.ofList_toList]
  dsimp only
  rw [inside]
  conv_rhs => rw [← List.dropLast_append_getLast h.some, List.any_append]
  rw [Bool.or_comm]
  simp

namespace FileTree

/-! ### Ways in a tree -/

/-- The tree at the end of a way. -/
def at? : List String → FileTree → Option FileTree
  | [], t => some t
  | name :: way, t => (t.child? name).bind (at? way)

/-- One more segment is followed from where the others lead, if it does not go back. -/
theorem toOption_follow_concat {part : List Char} (down : part ≠ Path.back)
    (around : List FileTree) (here : FileTree) (parts : List (List Char)) :
    (follow around here (parts ++ [part])).toOption =
      (follow around here parts).toOption.bind fun t => (follow [] t [part]).toOption := by
  induction parts generalizing around here with
  | nil =>
    show (follow around here [part]).toOption = (follow [] here [part]).toOption
    unfold follow
    rw [if_neg down, if_neg down]
    rfl
  | cons first rest ih =>
    generalize (fun t : FileTree => (follow [] t [part]).toOption) = last at ih ⊢
    rw [List.cons_append]
    unfold follow
    split
    · rfl
    · split
      · exact ih around here
      · split
        · cases around with
          | nil => exact ih [] here
          | cons outer more => exact ih more outer
        · cases here.child? (String.ofList first) with
          | none => rfl
          | some next => exact ih (here :: around) next

theorem toOption_follow_step {name : String} (step : Path.IsStep name.toList) (t : FileTree) :
    (follow [] t [name.toList]).toOption = t.child? name := by
  unfold follow
  rw [if_neg (not_or.2 ⟨step.full, step.moves⟩), if_neg step.down, String.ofList_toList]
  cases t with
  | file bytes => rfl
  | folder entries =>
    rw [if_neg (by exact Bool.false_ne_true)]
    cases (FileTree.folder entries).child? name <;> rfl

theorem find?_join {root name : String} (absolute : Path.isAbsolute root = true)
    (step : Path.IsStep name.toList) (t : FileTree) :
    t.find? (Path.join root name) = (t.find? root).bind (·.child? name) := by
  unfold find? find
  have joined := Path.segments_join absolute step.isAbsolute
  rw [step.segments] at joined
  rcases joined with ⟨front, eq, joined⟩ | joined
  · rw [eq, joined, toOption_follow_concat step.down, toOption_follow_concat (by decide),
      Option.bind_assoc]
    refine congrArg _ (funext fun here => ?_)
    rw [toOption_follow_step step]
    -- an empty segment does not lead out of a file, and a file has no entries either
    cases here <;> rfl
  · rw [joined, toOption_follow_concat step.down]
    exact congrArg _ (funext fun here => toOption_follow_step step here)

/-- **A way is followed in the tree as its path is.** -/
theorem find?_along {root : String} {way : List String} (absolute : Path.isAbsolute root = true)
    (names : ∀ name ∈ way, Path.IsStep name.toList) (t : FileTree) :
    t.find? (Path.along root way) = (t.find? root).bind (at? way) := by
  induction way generalizing root with
  | nil =>
    show t.find? root = (t.find? root).bind some
    cases t.find? root <;> rfl
  | cons name way ih =>
    have step := names name List.mem_cons_self
    show t.find? (Path.along (Path.join root name) way) = _
    rw [ih (Path.isAbsolute_join absolute step.isAbsolute)
        fun n hn => names n (List.mem_cons_of_mem name hn),
      find?_join absolute step, Option.bind_assoc]
    rfl

/-! ### Proper trees -/

variable {t u : FileTree} {entries : List (String × FileTree)} {name : String}

/-- In every folder of the tree, each entry has a name of its own, and one that can be followed. -/
inductive Proper : FileTree → Prop
  | file (bytes : List UInt8) : Proper (.file bytes)
  | folder {entries : List (String × FileTree)} (once : (entries.map Prod.fst).Nodup)
      (named : ∀ e ∈ entries, Path.IsStep e.1.toList) (parts : ∀ e ∈ entries, Proper e.2) :
      Proper (.folder entries)

theorem proper_empty : empty.Proper := .folder List.nodup_nil nofun nofun

theorem mem_of_child? (h : t.child? name = some u) : (name, u) ∈ t.entries := by
  obtain ⟨e, found, rfl⟩ := Option.map_eq_some_iff.1 h
  have same : e.1 = name := by simpa using List.find?_some found
  rw [← same]
  exact List.mem_of_find?_eq_some found

theorem child?_eq_some_iff (once : (entries.map Prod.fst).Nodup) :
    (FileTree.folder entries).child? name = some u ↔ (name, u) ∈ entries := by
  constructor
  · exact mem_of_child?
  · intro h
    unfold child?
    show (entries.find? fun e => e.1 == name).map Prod.snd = some u
    rw [find?_key_of_nodup once h]
    rfl

theorem Proper.child? (proper : t.Proper) (h : t.child? name = some u) : u.Proper := by
  have mem := mem_of_child? h
  cases proper with
  | file => cases mem
  | folder _ _ parts => exact parts _ mem

/-- What a path leads to in a proper tree is proper. -/
theorem Proper.follow {around : List FileTree} {here : FileTree} {parts : List (List Char)}
    (outer : ∀ u ∈ around, u.Proper) (proper : here.Proper)
    (h : follow around here parts = .ok t) : t.Proper := by
  induction parts generalizing around here with
  | nil =>
    cases h
    exact proper
  | cons part rest ih =>
    unfold FileTree.follow at h
    split at h
    · cases h
    · split at h
      · exact ih outer proper h
      · split at h
        · cases around with
          | nil => exact ih outer proper h
          | cons first more =>
            exact ih (fun u hu => outer u (List.mem_cons_of_mem first hu))
              (outer first List.mem_cons_self) h
        · split at h
          · next found => exact ih (List.forall_mem_cons.2 ⟨proper, outer⟩) (proper.child? found) h
          · cases h

theorem Proper.find? {path : String} (proper : t.Proper) (h : t.find? path = some u) :
    u.Proper := by
  unfold FileTree.find? at h
  cases found : t.find path with
  | error lost =>
    rw [found] at h
    cases h
  | ok v =>
    rw [found] at h
    obtain rfl := Option.some.inj h
    exact Proper.follow (fun _ hu => absurd hu List.not_mem_nil) proper found

/-! ### Changes to proper trees -/

theorem Proper.folder_entries (proper : t.Proper) : (FileTree.folder t.entries).Proper := by
  cases proper with
  | file => exact proper_empty
  | folder once named parts => exact .folder once named parts

theorem map_fst_putEntry (entries : List (String × FileTree)) (name : String) (t : FileTree) :
    (putEntry entries name t).map Prod.fst = insertNew (entries.map Prod.fst) name := by
  unfold putEntry insertNew
  rw [contains_map_key]
  split
  · rw [List.map_map]
    apply List.map_congr_left
    intro e _
    rw [Function.comp_apply]
    split
    · next same => exact (eq_of_beq same).symm
    · rfl
  · simp

theorem mem_putEntry {e : String × FileTree} (h : e ∈ putEntry entries name t) :
    e = (name, t) ∨ e ∈ entries := by
  unfold putEntry at h
  split at h
  · obtain ⟨d, hd, rfl⟩ := List.mem_map.1 h
    split
    · exact .inl rfl
    · exact .inr hd
  · simpa [or_comm] using h

theorem Proper.putEntry (proper : (FileTree.folder entries).Proper)
    (step : Path.IsStep name.toList) (new : t.Proper) :
    (FileTree.folder (putEntry entries name t)).Proper := by
  cases proper with
  | folder once named parts =>
    refine .folder ?_ ?_ ?_
    · rw [map_fst_putEntry]
      exact nodup_insertNew once
    · intro e he
      rcases mem_putEntry he with rfl | he
      · exact step
      · exact named e he
    · intro e he
      rcases mem_putEntry he with rfl | he
      · exact new
      · exact parts e he

theorem Proper.put {way : List String} (new : u.Proper)
    (names : ∀ name ∈ way, Path.IsStep name.toList) (proper : t.Proper) :
    (put u way t).Proper := by
  induction way generalizing t with
  | nil => exact new
  | cons name way ih =>
    have inner : ((t.child? name).getD empty).Proper := by
      cases found : t.child? name with
      | none => exact proper_empty
      | some next => exact proper.child? found
    exact proper.folder_entries.putEntry (names name List.mem_cons_self)
      (ih (fun n hn => names n (List.mem_cons_of_mem name hn)) inner)

theorem Proper.erase {way : List String} (names : ∀ name ∈ way, Path.IsStep name.toList)
    (proper : t.Proper) : (erase way t).Proper := by
  fun_induction FileTree.erase way t with
  | case1 t => exact proper
  | case2 way bytes => exact proper
  | case3 name entries =>
    cases proper with
    | folder once named parts =>
      exact .folder (once.sublist (List.filter_sublist.map _))
        (fun e he => named e (List.mem_of_mem_filter he))
        (fun e he => parts e (List.mem_of_mem_filter he))
  | case4 name rest entries _ next found ih =>
    exact proper.putEntry (names name List.mem_cons_self)
      (ih (fun n hn => names n (List.mem_cons_of_mem name hn)) (proper.child? found))
  | case5 => exact proper

theorem isStep_of_mem_names {path : String} (absolute : Path.isAbsolute path = true) :
    ∀ name ∈ names path, Path.IsStep name.toList := by
  intro name h
  obtain ⟨part, hp, rfl⟩ := List.mem_map.1 h
  rw [String.toList_ofList]
  exact Path.isStep_of_mem_steps_of_isAbsolute absolute part hp

/-- **Changes keep a tree proper**: a file that is written, a folder that is made, and what is
deleted. -/
theorem Proper.change {path : String} (proper : t.Proper) (absolute : Path.isAbsolute path = true) :
    (∀ bytes, (t.write path bytes).Proper) ∧ (t.makeFolder path).Proper ∧
      (t.delete path).Proper := by
  have steps := isStep_of_mem_names absolute
  refine ⟨fun bytes => Proper.put (.file bytes) steps proper, ?_, proper.erase steps⟩
  unfold makeFolder
  split
  · exact proper
  · exact Proper.put proper_empty steps proper

/-! ### Files -/

/-- A file stands at the end of the way. -/
def HoldsFile (t : FileTree) (way : List String) : Prop := ∃ bytes, t.at? way = some (.file bytes)

theorem hasFile_along_iff {way : List String} {root : String}
    (absolute : Path.isAbsolute root = true) (names : ∀ name ∈ way, Path.IsStep name.toList) :
    t.hasFile (Path.along root way) = true ↔
      ∃ top, t.find? root = some top ∧ top.HoldsFile way := by
  unfold hasFile HoldsFile
  rw [find?_along absolute names]
  cases t.find? root with
  | none => simp
  | some top =>
    cases e : top.at? way with
    | none => simp [e]
    | some u => cases u <;> simp [e, isFile]

theorem holdsFile_cons_iff (once : (entries.map Prod.fst).Nodup) {way : List String} :
    (FileTree.folder entries).HoldsFile (name :: way) ↔
      ∃ u, (name, u) ∈ entries ∧ u.HoldsFile way := by
  unfold HoldsFile
  simp only [at?, Option.bind_eq_some_iff, child?_eq_some_iff once]
  constructor
  · rintro ⟨bytes, u, mem, found⟩
    exact ⟨u, mem, bytes, found⟩
  · rintro ⟨u, mem, bytes, found⟩
    exact ⟨bytes, u, mem, found⟩

theorem holdsFile_nil_iff : t.HoldsFile [] ↔ t.isFile = true := by
  cases t <;> simp [HoldsFile, at?, isFile]

theorem HoldsFile.isFile_eq_false {way : List String} (h : t.HoldsFile way) (deeper : way ≠ []) :
    t.isFile = false := by
  obtain ⟨bytes, h⟩ := h
  cases t with
  | folder => rfl
  | file =>
    cases way with
    | nil => exact absurd rfl deeper
    | cons name way => cases h

/-- The names on the way to a file of a proper tree can be followed. -/
theorem HoldsFile.steps {way : List String} (h : t.HoldsFile way) (proper : t.Proper) :
    ∀ name ∈ way, Path.IsStep name.toList := by
  induction way generalizing t with
  | nil => exact nofun
  | cons first way ih =>
    cases proper with
    | file => obtain ⟨bytes, h⟩ := h; cases h
    | folder once named parts =>
      obtain ⟨u, mem, below⟩ := (holdsFile_cons_iff once).1 h
      exact List.forall_mem_cons.2 ⟨named _ mem, ih below (parts _ mem)⟩

end FileTree

end ModuleAtlas
