/-
ModuleAtlas/Proofs/RelativePath.lean

Paths as seen from a folder.

A path in normal form is its slashes in front and its steps (`toList_of_isNormal`), and none of the
steps stays or goes back.  The way from a folder goes back as often as the folder leaves what both
share, and then down.  So the way tells how much was shared, and with the folder it tells the path:
`way_injective`.  What is written down for a way can be read again, since no step is empty, has a
slash in it or is the single dot that stands for no steps at all.

Main result: `relative_injective`.  Paths that start with equally many slashes look different from
every folder, whether they are below it or not.
-/
import ModuleAtlas.Path

namespace ModuleAtlas

/-! ### Texts in pieces -/

namespace Text

variable {sep : Char} {w rest : List Char}

theorem split_cons_self (sep : Char) (rest : List Char) :
    split sep (sep :: rest) = [] :: split sep rest := by
  unfold split
  rw [splitBy, if_pos (beq_self_eq_true sep)]

theorem split_append_cons (free : sep ∉ w) (rest : List Char) :
    split sep (w ++ sep :: rest) = w :: split sep rest := by
  induction w with
  | nil => exact split_cons_self sep rest
  | cons c w ih =>
    rw [List.mem_cons, not_or] at free
    have later := ih free.2
    unfold split at later ⊢
    rw [List.cons_append, splitBy, if_neg (by simpa using Ne.symm free.1), later]
    rfl

theorem split_of_notMem (free : sep ∉ w) : split sep w = [w] := by
  induction w with
  | nil => rfl
  | cons c w ih =>
    rw [List.mem_cons, not_or] at free
    have later := ih free.2
    unfold split at later ⊢
    rw [splitBy, if_neg (by simpa using Ne.symm free.1), later]
    rfl

/-- Pieces without separators come back from where they were joined. -/
theorem split_joinWith {ws : List (List Char)} (some : ws ≠ []) (free : ∀ w ∈ ws, sep ∉ w) :
    split sep (joinWith [sep] ws) = ws := by
  induction ws with
  | nil => exact absurd rfl some
  | cons w ws ih =>
    have here : sep ∉ w := free w List.mem_cons_self
    cases ws with
    | nil => exact split_of_notMem here
    | cons v vs =>
      show split sep (w ++ [sep] ++ joinWith [sep] (v :: vs)) = _
      rw [List.append_assoc, List.singleton_append, split_append_cons here,
        ih (List.cons_ne_nil v vs) fun u hu => free u (List.mem_cons_of_mem w hu)]

theorem notMem_of_mem_split {s : List Char} (h : w ∈ split sep s) : sep ∉ w := by
  induction s generalizing w with
  | nil =>
    obtain rfl := List.mem_singleton.1 h
    exact List.not_mem_nil
  | cons c s ih =>
    unfold split at h ih
    rw [splitBy] at h
    split at h
    · rcases List.mem_cons.1 h with rfl | h
      · exact List.not_mem_nil
      · exact ih h
    · next other =>
      have other : sep ≠ c := fun h => other (beq_iff_eq.2 h.symm)
      rcases pieces : splitBy (· == sep) s with - | ⟨v, vs⟩
      · rw [pieces] at h
        obtain rfl := List.mem_singleton.1 h
        simpa using other
      · rw [pieces] at h ih
        rcases List.mem_cons.1 h with rfl | h
        · rw [List.mem_cons, not_or]
          exact ⟨other, ih List.mem_cons_self⟩
        · exact ih (List.mem_cons_of_mem v h)

theorem mem_joinWith {c : Char} {sep : List Char} {ws : List (List Char)} (here : c ∈ w)
    (h : w ∈ ws) : c ∈ joinWith sep ws := by
  induction ws with
  | nil => cases h
  | cons v vs ih =>
    cases vs with
    | nil =>
      obtain rfl := List.mem_singleton.1 h
      exact here
    | cons u us =>
      show c ∈ v ++ sep ++ joinWith sep (u :: us)
      rcases List.mem_cons.1 h with rfl | h
      · exact List.mem_append_left _ (List.mem_append_left _ here)
      · exact List.mem_append_right _ (ih h)

theorem mem_of_mem_joinWith {c : Char} {sep : List Char} {ws : List (List Char)}
    (h : c ∈ joinWith sep ws) : c ∈ sep ∨ ∃ w ∈ ws, c ∈ w := by
  induction ws with
  | nil => cases h
  | cons v vs ih =>
    cases vs with
    | nil => exact .inr ⟨v, List.mem_cons_self, h⟩
    | cons u us =>
      have h : c ∈ v ++ sep ++ joinWith sep (u :: us) := h
      rw [List.mem_append, List.mem_append] at h
      rcases h with (h | h) | h
      · exact .inr ⟨v, List.mem_cons_self, h⟩
      · exact .inl h
      · rcases ih h with h | ⟨w, hw, h⟩
        · exact .inl h
        · exact .inr ⟨w, List.mem_cons_of_mem v hw, h⟩

end Text

namespace Path

/-! ### Steps -/

/-- The segment names something in a folder. -/
structure IsStep (part : List Char) : Prop where
  full : part ≠ []
  moves : part ≠ here
  down : part ≠ back
  single : '/' ∉ part

theorem isStep_of_mem_pushSegment {kept : List (List Char)} {part p : List Char}
    (steps : ∀ q ∈ kept, IsStep q) (single : '/' ∉ part) (h : p ∈ pushSegment true kept part) :
    IsStep p := by
  unfold pushSegment at h
  split at h
  · exact steps p h
  · next other =>
    rw [not_or] at other
    split at h
    · next down =>
      rcases List.mem_cons.1 h with rfl | h
      · exact ⟨other.1, other.2, down, single⟩
      · exact steps p h
    · cases kept with
      | nil => cases h
      | cons last before =>
        have keeps : last ≠ back := (steps last List.mem_cons_self).down
        dsimp only at h
        rw [if_neg keeps] at h
        exact steps p (List.mem_cons_of_mem last h)

/-- What is left of an absolute path in normal form are steps. -/
theorem isStep_of_mem_normalSegments {s p : List Char}
    (h : p ∈ normalSegments true (segments s)) : IsStep p := by
  have run : ∀ (parts kept : List (List Char)), (∀ q ∈ parts, '/' ∉ q) → (∀ q ∈ kept, IsStep q) →
      ∀ q ∈ parts.foldl (pushSegment true) kept, IsStep q := by
    intro parts
    induction parts with
    | nil => exact fun kept _ steps => steps
    | cons part parts ih =>
      intro kept single steps
      refine ih _ (fun q hq => single q (List.mem_cons_of_mem part hq)) fun q hq => ?_
      exact isStep_of_mem_pushSegment steps (single part List.mem_cons_self) hq
  refine run (segments s) [] (fun q hq => Text.notMem_of_mem_split hq) nofun p ?_
  exact List.mem_reverse.1 h

/-- Reading the segments of slashes and steps gives the steps. -/
theorem filter_segments_ofSegments (n : Nat) {parts : List (List Char)}
    (steps : ∀ p ∈ parts, p ≠ [] ∧ '/' ∉ p) :
    (segments (List.replicate n '/' ++ ofSegments parts)).filter (· ≠ []) = parts := by
  induction n with
  | zero =>
    rw [List.replicate_zero, List.nil_append]
    cases parts with
    | nil => rfl
    | cons p ps =>
      unfold segments ofSegments
      rw [Text.split_joinWith (List.cons_ne_nil p ps) fun q hq => (steps q hq).2,
        List.filter_eq_self.2 fun q hq => decide_eq_true (steps q hq).1]
  | succ n ih =>
    unfold segments at ih ⊢
    rw [List.replicate_succ, List.cons_append, Text.split_cons_self,
      List.filter_cons_of_neg (by decide), ih]

/-! ### Paths in normal form -/

/-- An absolute path in normal form that can be written with slashes only. -/
structure IsNormal (p : String) : Prop where
  absolute : isAbsolute p = true
  normal : normalize p = p
  plain : '\\' ∉ p.toList

instance (p : String) : Decidable (IsNormal p) :=
  decidable_of_iff (isAbsolute p = true ∧ normalize p = p ∧ '\\' ∉ p.toList)
    ⟨fun ⟨absolute, normal, plain⟩ => ⟨absolute, normal, plain⟩,
      fun h => ⟨h.absolute, h.normal, h.plain⟩⟩

theorem isAbsolute_iff {p : String} : isAbsolute p = true ↔ ∃ rest, p.toList = '/' :: rest := by
  unfold isAbsolute
  cases p.toList with
  | nil => simp
  | cons c cs => simp

theorem leadingSlashes_pos {p : String} (h : isAbsolute p = true) :
    0 < leadingSlashes p.toList := by
  obtain ⟨rest, eq⟩ := isAbsolute_iff.1 h
  rw [eq]
  unfold leadingSlashes
  split
  · decide
  · decide
  · decide
  · next other => exact absurd rfl (other rest)

theorem toList_normalize {p : String} (h : isAbsolute p = true) :
    (normalize p).toList = List.replicate (leadingSlashes p.toList) '/' ++
      ofSegments (normalSegments true (segments p.toList)) := by
  have front := leadingSlashes_pos h
  unfold normalize
  dsimp only
  rw [decide_eq_true front, if_neg, String.toList_ofList]
  cases n : leadingSlashes p.toList with
  | zero => omega
  | succ n => simp [List.replicate_succ]

theorem steps_eq_normalSegments {p : String} (h : isAbsolute p = true) :
    steps p = normalSegments true (segments p.toList) := by
  unfold steps
  rw [toList_normalize h]
  apply filter_segments_ofSegments
  intro q hq
  have step := isStep_of_mem_normalSegments hq
  exact ⟨step.full, step.single⟩

/-- A path in normal form is its slashes in front and its steps. -/
theorem toList_of_isNormal {p : String} (h : IsNormal p) :
    p.toList = List.replicate (leadingSlashes p.toList) '/' ++ ofSegments (steps p) := by
  rw [steps_eq_normalSegments h.absolute, ← toList_normalize h.absolute, h.normal]

theorem isStep_of_mem_steps {p : String} {part : List Char} (h : IsNormal p)
    (hp : part ∈ steps p) : IsStep part := by
  rw [steps_eq_normalSegments h.absolute] at hp
  exact isStep_of_mem_normalSegments hp

theorem notMem_of_mem_steps {p : String} {part : List Char} (h : IsNormal p)
    (hp : part ∈ steps p) : '\\' ∉ part := by
  intro inside
  apply h.plain
  rw [toList_of_isNormal h]
  exact List.mem_append_right _ (Text.mem_joinWith inside hp)

/-! ### Ways -/

theorem shared_le (a b : List (List Char)) : shared a b ≤ a.length := by
  fun_induction shared a b with
  | case1 x xs ys ih => simp only [List.length_cons]; omega
  | case2 => exact Nat.zero_le _
  | case3 => exact Nat.zero_le _

theorem take_shared (a b : List (List Char)) : b.take (shared a b) = a.take (shared a b) := by
  fun_induction shared a b with
  | case1 x xs ys ih => rw [Nat.add_comm, List.take_succ_cons, List.take_succ_cons, ih]
  | case2 => rfl
  | case3 => rfl

theorem count_back_way {start target : List (List Char)} (down : back ∉ target) :
    (way start target).count back = start.length - shared start target := by
  have deeper : back ∉ target.drop (shared start target) := fun h => down (List.mem_of_mem_drop h)
  unfold way
  rw [List.count_append, List.count_replicate_self, List.count_eq_zero.2 deeper, Nat.add_zero]

/-- From a folder there is one way to each place: how often it goes back says how much of the
folder's own way is kept. -/
theorem way_injective {start a b : List (List Char)} (ha : back ∉ a) (hb : back ∉ b)
    (same : way start a = way start b) : a = b := by
  have kept : shared start a = shared start b := by
    have count := congrArg (List.count back) same
    rw [count_back_way ha, count_back_way hb] at count
    have := shared_le start a
    have := shared_le start b
    omega
  have rest : a.drop (shared start a) = b.drop (shared start b) := by
    unfold way at same
    dsimp only at same
    rw [kept] at same ⊢
    exact List.append_cancel_left same
  calc
    a = a.take (shared start a) ++ a.drop (shared start a) := (List.take_append_drop _ a).symm
    _ = b.take (shared start b) ++ b.drop (shared start b) := by
      rw [take_shared start a, take_shared start b, rest, kept]
    _ = b := List.take_append_drop _ b

/-- What is written down for a way: its segments, or the single dot for none. -/
def ofWay (parts : List (List Char)) : List Char :=
  if parts.isEmpty then here else ofSegments parts

theorem segments_ofWay {parts : List (List Char)} (single : ∀ p ∈ parts, '/' ∉ p) :
    segments (ofWay parts) = if parts = [] then [here] else parts := by
  cases parts with
  | nil => rfl
  | cons p ps => exact Text.split_joinWith (List.cons_ne_nil p ps) single

theorem ofWay_injective {a b : List (List Char)} (ha : ∀ p ∈ a, '/' ∉ p ∧ p ≠ here)
    (hb : ∀ p ∈ b, '/' ∉ p ∧ p ≠ here) (same : ofWay a = ofWay b) : a = b := by
  have read : segments (ofWay a) = segments (ofWay b) := by rw [same]
  rw [segments_ofWay fun p hp => (ha p hp).1, segments_ofWay fun p hp => (hb p hp).1] at read
  split at read
  · next none =>
    split at read
    · next none' => rw [none, none']
    · exact absurd rfl (hb here (read ▸ List.mem_singleton.2 rfl)).2
  · split at read
    · exact absurd rfl (ha here (read ▸ List.mem_singleton.2 rfl)).2
    · exact read

theorem mem_way {start target : List (List Char)} {part : List Char}
    (h : part ∈ way start target) : part = back ∨ part ∈ target := by
  rcases List.mem_append.1 h with h | h
  · exact .inl (List.eq_of_mem_replicate h)
  · exact .inr (List.mem_of_mem_drop h)

/-! ### Seen from a folder -/

theorem slashed_ofList {cs : List Char} (plain : '\\' ∉ cs) :
    slashed (String.ofList cs) = String.ofList cs := by
  have same : cs.map (fun c => if c == '\\' then '/' else c) = cs.map id := by
    apply List.map_congr_left
    intro c hc
    have other : c ≠ '\\' := fun h => plain (h ▸ hc)
    simp [other]
  unfold slashed
  rw [String.toList_ofList, same, List.map_id]

theorem slashed_of_notMem {s : String} (plain : '\\' ∉ s.toList) : slashed s = s := by
  have same := slashed_ofList plain
  rwa [String.ofList_toList] at same

theorem notMem_ofWay {parts : List (List Char)} (plain : ∀ p ∈ parts, '\\' ∉ p) :
    '\\' ∉ ofWay parts := by
  unfold ofWay
  split
  · decide
  · intro h
    rcases Text.mem_of_mem_joinWith h with h | ⟨p, hp, inside⟩
    · exact absurd h (by decide)
    · exact plain p hp inside

theorem relative_eq {p : String} (h : IsNormal p) (start : String) :
    relative p start = String.ofList (ofWay (way (steps start) (steps p))) := by
  apply slashed_ofList
  apply notMem_ofWay
  intro part hp
  rcases mem_way hp with rfl | hp
  · decide
  · exact notMem_of_mem_steps h hp

/-- A segment of what is seen of a path can be read again: it goes back or is a step of the path. -/
theorem readable_of_mem_way {p start : String} {part : List Char} (h : IsNormal p)
    (hp : part ∈ way (steps start) (steps p)) : part ≠ [] ∧ part ≠ here ∧ '/' ∉ part := by
  rcases mem_way hp with rfl | hp
  · decide
  · have step := isStep_of_mem_steps h hp
    exact ⟨step.full, step.moves, step.single⟩

theorem segments_relative {p : String} (h : IsNormal p) (start : String) :
    segments (relative p start).toList =
      if way (steps start) (steps p) = [] then [here] else way (steps start) (steps p) := by
  rw [relative_eq h, String.toList_ofList]
  exact segments_ofWay fun part hp => (readable_of_mem_way h hp).2.2

/-- **Paths look different from a folder.**  Two paths in normal form with equally many slashes in
front are the same path if they are the same as seen from some folder. -/
theorem relative_injective {p q start : String} (hp : IsNormal p) (hq : IsNormal q)
    (front : leadingSlashes p.toList = leadingSlashes q.toList)
    (same : relative p start = relative q start) : p = q := by
  have segment : ∀ {r : String}, IsNormal r → ∀ part ∈ way (steps start) (steps r),
      '/' ∉ part ∧ part ≠ here := by
    intro r hr part h
    have readable := readable_of_mem_way hr h
    exact ⟨readable.2.2, readable.2.1⟩
  have forward : ∀ {r : String}, IsNormal r → back ∉ steps r :=
    fun hr h => (isStep_of_mem_steps hr h).down rfl
  rw [relative_eq hp, relative_eq hq, String.ofList_inj] at same
  have ways : way (steps start) (steps p) = way (steps start) (steps q) :=
    ofWay_injective (segment hp) (segment hq) same
  have moves : steps p = steps q := way_injective (forward hp) (forward hq) ways
  apply String.toList_inj.1
  rw [toList_of_isNormal hp, toList_of_isNormal hq, front, moves]

end Path

end ModuleAtlas
