/-
ModuleAtlas/Proofs/RelativeInverse.lean

Back to a path from what is seen of it.

What is seen of a path from a folder is a way: so many segments that go back, then steps down.
Taken from the steps of the folder, those that go back leave what the path does not share
(`foldl_pushSegment_replicate_back`), and what is left are the steps that both share.  So the way
arrives at the steps of the path (`foldl_pushSegment_way`), wherever the path lies: above, below or
beside the folder.  The slashes in front are those of the folder, which is why the path has to have
as many.

Main result: `relative_leads_back`.  Joined to the folder and brought into normal form, what is seen
of a path is the path again.  So no two paths look the same, and in particular those do not that lie
outside the folder: they are the ones whose first segment goes back (`head?_segments_relative`).
-/
import ModuleAtlas.Proofs.TreeWays

namespace ModuleAtlas.Path

variable {start target kept : List (List Char)} {p root : String}

/-! ### The way is taken -/

/-- Each segment that goes back leaves one step, as long as there are any. -/
theorem foldl_pushSegment_replicate_back (steps : ∀ p ∈ kept, IsStep p) (n : Nat) :
    (List.replicate n back).foldl (pushSegment true) kept = kept.drop n := by
  induction n generalizing kept with
  | zero => rfl
  | succ n ih =>
    rw [List.replicate_succ, List.foldl_cons]
    cases kept with
    | nil =>
      show (List.replicate n back).foldl (pushSegment true) [] = []
      rw [ih steps, List.drop_nil]
    | cons last before =>
      have down : last ≠ back := (steps last List.mem_cons_self).down
      have leaves : pushSegment true (last :: before) back = before := by
        show (if last = back then back :: last :: before else before) = before
        rw [if_neg down]
      rw [leaves, ih fun p hp => steps p (List.mem_cons_of_mem last hp), List.drop_succ_cons]

/-- **The way from a folder to a path arrives there.** -/
theorem foldl_pushSegment_way (hs : ∀ p ∈ start, IsStep p) (ht : ∀ p ∈ target, IsStep p) :
    (way start target).foldl (pushSegment true) start.reverse = target.reverse := by
  have leaves : (List.replicate (start.length - shared start target) back).foldl (pushSegment true)
      start.reverse = (target.take (shared start target)).reverse := by
    rw [foldl_pushSegment_replicate_back fun p hp => hs p (List.mem_reverse.1 hp),
      List.drop_reverse, Nat.sub_sub_self (shared_le start target), take_shared]
  have goesOn : ∀ p ∈ target.drop (shared start target), IsStep p :=
    fun p hp => ht p (List.mem_of_mem_drop hp)
  show (List.replicate _ back ++ target.drop _).foldl (pushSegment true) start.reverse = _
  rw [List.foldl_append, leaves, foldl_pushSegment_of_isStep goesOn, ← List.reverse_append,
    List.take_append_drop]

/-! ### What is seen is taken as the way -/

theorem isAbsolute_relative (h : IsNormal p) (root : String) :
    isAbsolute (relative p root) = false := by
  apply isAbsolute_eq_false_of_segments
  rw [segments_relative h]
  split
  · decide
  · exact fun empty => (readable_of_mem_way h empty).1 rfl

theorem foldl_pushSegment_relative (h : IsNormal p) (root : String) :
    (segments (relative p root).toList).foldl (pushSegment true) kept =
      (way (steps root) (steps p)).foldl (pushSegment true) kept := by
  rw [segments_relative h]
  split
  · next none =>
    -- the single dot stays where no steps are taken
    rw [none]
    rfl
  · rfl

/-- What is seen of a path from an absolute folder with as many slashes in front leads back to it. -/
theorem normalize_join_relative (absolute : isAbsolute root = true) (h : IsNormal p)
    (front : leadingSlashes p.toList = leadingSlashes root.toList) :
    normalize (join root (relative p root)) = p := by
  have given := isAbsolute_relative h root
  have joined := isAbsolute_join absolute given
  have arrives : normalSegments true (segments (join root (relative p root)).toList) = steps p := by
    rw [normalSegments_join absolute given, foldl_pushSegment_relative h,
      foldl_pushSegment_way (isStep_of_mem_steps_of_isAbsolute absolute)
        (isStep_of_mem_steps_of_isAbsolute h.absolute),
      List.reverse_reverse]
  apply String.toList_inj.1
  rw [toList_normalize joined, leadingSlashes_join absolute given, arrives, ← front]
  exact (toList_of_isNormal h).symm

/-! ### Outside a folder -/

/-- A way goes back first, unless it starts above the place it leads to. -/
theorem head?_way (down : back ∉ target) :
    (way start target).head? = some back ↔ ¬ start <+: target := by
  constructor
  · rintro first ⟨more, rfl⟩
    rw [way_append] at first
    exact down (List.mem_append_right start (List.mem_of_mem_head? first))
  · intro beside
    have leaves : start.length - shared start target ≠ 0 := by
      intro all
      have whole : start.take (shared start target) = start :=
        List.take_of_length_le (Nat.sub_eq_zero_iff_le.1 all)
      apply beside
      rw [← whole, ← take_shared]
      exact List.take_prefix _ _
    obtain ⟨n, eq⟩ := Nat.exists_eq_succ_of_ne_zero leaves
    show (List.replicate (start.length - shared start target) back ++ _).head? = _
    rw [eq]
    rfl

theorem head?_segments_relative (h : IsNormal p) (root : String) :
    (segments (relative p root).toList).head? = some back ↔ ¬ steps root <+: steps p := by
  have down : back ∉ steps p := fun inside => (isStep_of_mem_steps h inside).down rfl
  rw [← head?_way down, segments_relative h]
  split
  · next none =>
    rw [none]
    decide
  · rfl

theorem moving_eq_steps (h : IsNormal p) : moving p = steps p := by
  have readable : ∀ part ∈ steps p, part ≠ [] ∧ '/' ∉ part := fun part hp =>
    ⟨(isStep_of_mem_steps h hp).full, (isStep_of_mem_steps h hp).single⟩
  rw [moving_eq_filter, toList_of_isNormal h, filter_segments_ofSegments _ readable]
  exact List.filter_eq_self.2 fun part hp => decide_eq_true (isStep_of_mem_steps h hp).moves

/-- A path in normal form lies below another if it takes the steps of that one first. -/
theorem below?_eq_none_iff (hr : IsNormal root) (h : IsNormal p)
    (front : leadingSlashes p.toList = leadingSlashes root.toList) :
    below? root p = none ↔ ¬ steps root <+: steps p := by
  unfold below?
  rw [parts_eq hr.absolute, parts_eq h.absolute, moving_eq_steps hr, moving_eq_steps h, front]
  simp

/-! ### Behind a single slash -/

/-- A path in normal form with one slash in front. -/
structure IsRooted (p : String) : Prop extends IsNormal p where
  front : leadingSlashes p.toList = 1

instance (p : String) : Decidable (IsRooted p) :=
  decidable_of_iff ((isAbsolute p = true ∧ normalize p = p ∧ '\\' ∉ p.toList) ∧
      leadingSlashes p.toList = 1)
    ⟨fun h => ⟨⟨h.1.1, h.1.2.1, h.1.2.2⟩, h.2⟩, fun h => ⟨⟨h.absolute, h.normal, h.plain⟩, h.front⟩⟩

/-- **What is seen of a path leads back to it.**  From each root every path is seen by a relative
one, and this, joined to the root and brought into normal form, is the path.  So different paths are
seen differently.  What goes back first is what is seen of the paths that do not lie below the root,
and they are no exception. -/
theorem relative_leads_back (hr : IsRooted root) :
    (∀ p, IsRooted p → relativeOf p root = .ok (relative p root) ∧
      isAbsolute (relative p root) = false ∧ normalize (join root (relative p root)) = p) ∧
    (∀ p q, IsRooted p → IsRooted q → p ≠ q → relative p root ≠ relative q root) ∧
    ∀ p, IsRooted p →
      ((segments (relative p root).toList).head? = some back ↔ below? root p = none) := by
  have front : ∀ {p}, IsRooted p → leadingSlashes p.toList = leadingSlashes root.toList :=
    fun hp => hp.front.trans hr.front.symm
  have returns : ∀ p, IsRooted p → normalize (join root (relative p root)) = p :=
    fun p hp => normalize_join_relative hr.absolute hp.toIsNormal (front hp)
  refine ⟨fun p hp => ⟨?_, isAbsolute_relative hp.toIsNormal root, returns p hp⟩, ?_, ?_⟩
  · have given : p ≠ "" := by
      rintro rfl
      cases hp.front
    exact if_neg given
  · intro p q hp hq other same
    apply other
    rw [← returns p hp, ← returns q hq, same]
  · intro p hp
    rw [below?_eq_none_iff hr.toIsNormal hp.toIsNormal (front hp)]
    exact head?_segments_relative hp.toIsNormal root

/-- A file beside the root and one of the same name below it. -/
theorem relative_leads_back_beside :
    (IsRooted "/w/app" ∧ IsRooted "/w/lib/a.ts" ∧ IsRooted "/w/app/lib/a.ts") ∧
    relativeOf "/w/lib/a.ts" "/w/app" = .ok "../lib/a.ts" ∧
    normalize (join "/w/app" "../lib/a.ts") = "/w/lib/a.ts" ∧
    relative "/w/lib/a.ts" "/w/app" ≠ relative "/w/app/lib/a.ts" "/w/app" ∧
    below? "/w/app" "/w/lib/a.ts" = none := by
  have root : IsRooted "/w/app" := by decide +kernel
  have beside : IsRooted "/w/lib/a.ts" := by decide +kernel
  have inside : IsRooted "/w/app/lib/a.ts" := by decide +kernel
  have seen : relative "/w/lib/a.ts" "/w/app" = "../lib/a.ts" := by decide +kernel
  obtain ⟨returns, differ, outside⟩ := relative_leads_back root
  obtain ⟨given, -, again⟩ := returns _ beside
  refine ⟨⟨root, beside, inside⟩, ?_, ?_, differ _ _ beside inside (by decide), ?_⟩
  · rw [given, seen]
  · rw [← seen]
    exact again
  · apply (outside _ beside).1
    rw [seen]
    decide +kernel

end ModuleAtlas.Path
