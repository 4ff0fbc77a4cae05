/-
ModuleAtlas/Proofs/PlainPath.lean

Paths that go straight down from a root.

A plain text names something in a folder, then something in that, and so on: none of its segments
is empty, stays or goes back (`IsPlain`).  Behind any number of steps that stay it is what a
manifest gives for a file.  `exists_base_eq` says where such a text leads from a root: to the steps
of the root with the text behind them, whatever else the root is written with.  `relative_below` goes
the other way: what stands behind the steps of the root is what is seen from there.
-/
import ModuleAtlas.Proofs.RelativePath
import ModuleAtlas.Resolution
import ModuleAtlas.Target

namespace ModuleAtlas

/-! ### Texts in pieces -/

namespace Text

variable {sep : Char}

theorem split_ne_nil (sep : Char) (s : List Char) : split sep s ≠ [] := by
  unfold split
  cases s with
  | nil => exact List.cons_ne_nil _ _
  | cons c s =>
    rw [splitBy]
    split
    · exact List.cons_ne_nil _ _
    · cases splitBy (· == sep) s <;> exact List.cons_ne_nil _ _

theorem split_cons_of_ne {c : Char} (other : c ≠ sep) (s : List Char) :
    split sep (c :: s) = consFirst c (split sep s) := by
  unfold split
  rw [splitBy, if_neg (by simpa using other)]

theorem joinWith_cons {w : List Char} {ws : List (List Char)} (some : ws ≠ []) (sep : List Char) :
    joinWith sep (w :: ws) = w ++ sep ++ joinWith sep ws := by
  cases ws with
  | nil => exact absurd rfl some
  | cons v vs => rfl

/-- A text comes back from its pieces. -/
theorem joinWith_split (sep : Char) (s : List Char) : joinWith [sep] (split sep s) = s := by
  induction s with
  | nil => rfl
  | cons c s ih =>
    by_cases here : c = sep
    · rw [here, split_cons_self, joinWith_cons (split_ne_nil sep s), ih]
      rfl
    · rw [split_cons_of_ne here]
      rcases pieces : split sep s with - | ⟨w, ws⟩
      · exact absurd pieces (split_ne_nil sep s)
      · rw [pieces] at ih
        rw [← ih]
        cases ws <;> rfl

theorem split_append (sep : Char) (a b : List Char) :
    split sep (a ++ sep :: b) = split sep a ++ split sep b := by
  induction a with
  | nil => exact split_cons_self sep b
  | cons c a ih =>
    rw [List.cons_append]
    by_cases here : c = sep
    · rw [here, split_cons_self, split_cons_self, ih]
      rfl
    · rw [split_cons_of_ne here, split_cons_of_ne here, ih]
      rcases pieces : split sep a with - | ⟨w, ws⟩
      · exact absurd pieces (split_ne_nil sep a)
      · rfl

end Text

namespace Path

/-! ### Plain texts -/

/-- The text goes straight down. -/
structure IsPlain (cs : List Char) : Prop where
  steps : ∀ p ∈ segments cs, IsStep p
  slashes : '\\' ∉ cs

instance (part : List Char) : Decidable (IsStep part) :=
  decidable_of_iff (part ≠ [] ∧ part ≠ here ∧ part ≠ back ∧ '/' ∉ part)
    ⟨fun h => ⟨h.1, h.2.1, h.2.2.1, h.2.2.2⟩, fun h => ⟨h.full, h.moves, h.down, h.single⟩⟩

instance (cs : List Char) : Decidable (IsPlain cs) :=
  decidable_of_iff ((∀ p ∈ segments cs, IsStep p) ∧ '\\' ∉ cs)
    ⟨fun h => ⟨h.1, h.2⟩, fun h => ⟨h.steps, h.slashes⟩⟩

variable {cs v : List Char} {parts kept : List (List Char)} {root target : String}

theorem ofSegments_segments (cs : List Char) : ofSegments (segments cs) = cs :=
  Text.joinWith_split '/' cs

theorem IsPlain.ne_nil (h : IsPlain cs) : cs ≠ [] := by
  rintro rfl
  exact (h.steps [] (List.mem_singleton.2 rfl)).full rfl

/-- No step that stays stands in front of a plain text. -/
theorem IsPlain.withoutDots (h : IsPlain cs) : Target.withoutDots cs = cs := by
  unfold Target.withoutDots
  split
  · next rest =>
    have first : here ∈ segments ('.' :: '/' :: rest) := by
      have split : segments (here ++ '/' :: rest) = here :: segments rest :=
        Text.split_append_cons (by decide) rest
      show here ∈ segments (here ++ '/' :: rest)
      rw [split]
      exact List.mem_cons_self
    exact absurd rfl (h.steps here first).moves
  · rfl

theorem IsPlain.slashed (h : IsPlain cs) : Path.slashed (String.ofList cs) = String.ofList cs :=
  slashed_ofList h.slashes

/-! ### Steps that are taken -/

theorem foldl_pushSegment_of_isStep (steps : ∀ p ∈ parts, IsStep p) :
    parts.foldl (pushSegment true) kept = parts.reverse ++ kept := by
  induction parts generalizing kept with
  | nil => rfl
  | cons p parts ih =>
    have step : IsStep p := steps p List.mem_cons_self
    have push : pushSegment true kept p = p :: kept := by
      unfold pushSegment
      rw [if_neg (not_or.2 ⟨step.full, step.moves⟩), if_pos step.down]
    rw [List.foldl_cons, push, ih fun q hq => steps q (List.mem_cons_of_mem p hq),
      List.reverse_cons, List.append_assoc, List.singleton_append]

theorem foldl_pushSegment_replicate_nil (n : Nat) :
    (List.replicate n []).foldl (pushSegment true) kept = kept := by
  induction n with
  | zero => rfl
  | succ n ih => exact ih

/-- Steps that stay in front of a text lead nowhere. -/
theorem foldl_pushSegment_withoutDots (cs : List Char) :
    (segments cs).foldl (pushSegment true) kept =
      (segments (Target.withoutDots cs)).foldl (pushSegment true) kept := by
  fun_induction Target.withoutDots cs with
  | case1 rest ih =>
    have split : segments ('.' :: '/' :: rest) = here :: segments rest :=
      Text.split_append_cons (w := here) (by decide) rest
    rw [split, List.foldl_cons]
    exact ih
  | case2 cs other => rfl

/-! ### Below a root -/

/-- The text behind slashes and steps. -/
def below (n : Nat) (steps : List (List Char)) (cs : List Char) : List Char :=
  List.replicate n '/' ++ (steps.flatMap (· ++ ['/']) ++ cs)

theorem ofSegments_append (parts : List (List Char)) (v : List Char) :
    ofSegments (parts ++ segments v) = parts.flatMap (· ++ ['/']) ++ v := by
  induction parts with
  | nil => exact ofSegments_segments v
  | cons p parts ih =>
    have more : parts ++ segments v ≠ [] :=
      List.append_ne_nil_of_right_ne_nil _ (Text.split_ne_nil '/' v)
    unfold ofSegments at ih ⊢
    rw [List.cons_append, Text.joinWith_cons more, ih, List.flatMap_cons]
    simp only [List.append_assoc]

theorem segments_flatMap (single : ∀ p ∈ parts, '/' ∉ p) (cs : List Char) :
    segments (parts.flatMap (· ++ ['/']) ++ cs) = parts ++ segments cs := by
  induction parts with
  | nil => rfl
  | cons p parts ih =>
    have later := ih fun q hq => single q (List.mem_cons_of_mem p hq)
    have here : '/' ∉ p := single p List.mem_cons_self
    unfold segments at later ⊢
    rw [List.flatMap_cons, List.append_assoc, List.append_assoc, List.singleton_append,
      Text.split_append_cons here, later]
    rfl

theorem segments_below (n : Nat) (single : ∀ p ∈ parts, '/' ∉ p) (cs : List Char) :
    segments (below n parts cs) = List.replicate n [] ++ (parts ++ segments cs) := by
  unfold below
  induction n with
  | zero => exact segments_flatMap single cs
  | succ n ih =>
    unfold segments at ih ⊢
    rw [List.replicate_succ, List.cons_append, Text.split_cons_self, ih]
    rfl

theorem steps_below {n : Nat} (front : 0 < n) (steps' : ∀ p ∈ parts, IsStep p) (h : IsPlain v) :
    steps (String.ofList (below n parts v)) = parts ++ segments v := by
  have absolute : isAbsolute (String.ofList (below n parts v)) = true := by
    unfold isAbsolute below
    cases n with
    | zero => cases front
    | succ n => simp [List.replicate_succ]
  rw [steps_eq_normalSegments absolute, String.toList_ofList,
    segments_below n fun p hp => (steps' p hp).single]
  unfold normalSegments
  rw [List.foldl_append, foldl_pushSegment_replicate_nil, List.foldl_append,
    foldl_pushSegment_of_isStep steps', foldl_pushSegment_of_isStep h.steps]
  simp

theorem way_append (start more : List (List Char)) : way start (start ++ more) = more := by
  have all : shared start (start ++ more) = start.length := by
    induction start with
    | nil => cases more <;> rfl
    | cons p start ih =>
      rw [List.cons_append, shared, if_pos rfl, ih, List.length_cons, Nat.add_comm]
  unfold way
  rw [all]
  simp

theorem isStep_of_mem_steps_of_isAbsolute (absolute : isAbsolute root = true) :
    ∀ p ∈ steps root, IsStep p := by
  intro p hp
  rw [steps_eq_normalSegments absolute] at hp
  exact isStep_of_mem_normalSegments hp

/-- **What is seen from a root** is what stands behind its steps. -/
theorem relative_below {n : Nat} (front : 0 < n) (absolute : isAbsolute root = true)
    (h : IsPlain v) : relative (String.ofList (below n (steps root) v)) root = String.ofList v := by
  unfold relative
  rw [steps_below front (isStep_of_mem_steps_of_isAbsolute absolute) h, way_append]
  have some : (segments v).isEmpty = false := by
    rw [List.isEmpty_eq_false_iff]
    exact Text.split_ne_nil '/' v
  dsimp only
  rw [some, if_neg Bool.false_ne_true, ofSegments_segments]
  exact h.slashed

/-! ### From a root -/

/-- A path without empty segments is not absolute. -/
theorem isAbsolute_eq_false_of_segments (full : [] ∉ segments target.toList) :
    isAbsolute target = false := by
  rw [Bool.eq_false_iff]
  intro absolute
  obtain ⟨rest, eq⟩ := isAbsolute_iff.1 absolute
  apply full
  show [] ∈ Text.split '/' target.toList
  rw [eq, Text.split_cons_self]
  exact List.mem_cons_self

theorem isAbsolute_of_isPlain_withoutDots (h : IsPlain (Target.withoutDots target.toList)) :
    isAbsolute target = false := by
  rw [Bool.eq_false_iff]
  intro absolute
  -- no dot stands in front of an absolute path, so there is nothing to leave out
  obtain ⟨rest, eq⟩ := isAbsolute_iff.1 absolute
  have same : Target.withoutDots target.toList = target.toList := by rw [eq]; rfl
  rw [same] at h
  have given := isAbsolute_eq_false_of_segments fun empty => (h.steps [] empty).full rfl
  rw [absolute] at given
  cases given

theorem toList_ne_nil (absolute : isAbsolute root = true) : root.toList ≠ [] := by
  obtain ⟨rest, eq⟩ := isAbsolute_iff.1 absolute
  rw [eq]
  exact List.cons_ne_nil _ _

/-- A path that is not absolute stands behind a slash, which is put there unless the root ends with
one. -/
theorem toList_join (absolute : isAbsolute root = true) (given : isAbsolute target = false) :
    (join root target).toList =
      if root.toList.getLast? = some '/' then root.toList ++ target.toList
      else root.toList ++ '/' :: target.toList := by
  have full : root.isEmpty = false := by
    rw [Bool.eq_false_iff]
    intro empty
    exact toList_ne_nil absolute (by rw [String.isEmpty_iff.1 empty]; rfl)
  unfold join
  rw [given, if_neg Bool.false_ne_true, full, Bool.false_or]
  by_cases ends : root.toList.getLast? = some '/' <;> simp [ends]

/-- The segments of a path are joined behind those of the root, the last of which may be empty and
then gives way. -/
theorem segments_join (absolute : isAbsolute root = true) (given : isAbsolute target = false) :
    (∃ front, segments root.toList = front ++ [[]] ∧
      segments (join root target).toList = front ++ segments target.toList) ∨
    segments (join root target).toList = segments root.toList ++ segments target.toList := by
  rw [toList_join absolute given]
  by_cases ends : root.toList.getLast? = some '/'
  · left
    obtain ⟨front, eq⟩ := List.getLast?_eq_some_iff.1 ends
    rw [if_pos ends, eq, List.append_assoc, List.singleton_append]
    exact ⟨segments front, Text.split_append '/' front [],
      Text.split_append '/' front target.toList⟩
  · right
    rw [if_neg ends]
    exact Text.split_append '/' root.toList target.toList

theorem isAbsolute_join (absolute : isAbsolute root = true) (given : isAbsolute target = false) :
    isAbsolute (join root target) = true := by
  obtain ⟨rest, head⟩ := isAbsolute_iff.1 absolute
  rw [isAbsolute_iff, toList_join absolute given, head]
  split
  · exact ⟨_, rfl⟩
  · exact ⟨_, rfl⟩

/-- The segments of a joined path are taken one part after the other. -/
theorem normalSegments_join (absolute : isAbsolute root = true) (given : isAbsolute target = false) :
    normalSegments true (segments (join root target).toList) =
      ((segments target.toList).foldl (pushSegment true) (steps root).reverse).reverse := by
  have kept : (segments root.toList).foldl (pushSegment true) [] = (steps root).reverse := by
    rw [steps_eq_normalSegments absolute, normalSegments, List.reverse_reverse]
  unfold normalSegments
  rcases segments_join absolute given with ⟨front, ends, joined⟩ | joined
  · -- the empty segment that ends the root adds no step, so it may be missing
    rw [ends, List.foldl_append] at kept
    rw [joined, List.foldl_append, ← kept]
    rfl
  · rw [joined, List.foldl_append, kept]

/-- **Where a plain path leads from a root.** -/
theorem exists_base_eq (absolute : isAbsolute root = true)
    (h : IsPlain (Target.withoutDots target.toList)) :
    ∃ n, 0 < n ∧ Resolution.base root target =
      String.ofList (below n (steps root) (Target.withoutDots target.toList)) := by
  have given := isAbsolute_of_isPlain_withoutDots h
  have joined := isAbsolute_join absolute given
  refine ⟨leadingSlashes (join root target).toList, leadingSlashes_pos joined, ?_⟩
  unfold Resolution.base
  rw [if_neg (by rw [given]; exact Bool.false_ne_true)]
  apply String.toList_inj.1
  rw [toList_normalize joined, normalSegments_join absolute given, foldl_pushSegment_withoutDots,
    foldl_pushSegment_of_isStep h.steps, String.toList_ofList, List.reverse_append,
    List.reverse_reverse, List.reverse_reverse, ofSegments_append]
  rfl

end Path

end ModuleAtlas
