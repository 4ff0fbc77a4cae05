/-
ModuleAtlas/Proofs/CycleCoverage.lean

Which files occur in the cycles that are found.

The walk goes into each file once.  So it does not find every cycle, and a file can lie on a
cycle without occurring in one that is found: in `detour` the way through `d` comes to `b` when
`b` was left already, and nobody looks behind `b` again.

What decides is the order of the visits.  `Onward g a b` says that imports lead from `a` to `b`
through files that are not visited before `a`.  Those are the files that the walk visits while
it is inside of `a`: `Within` holds from when `a` is entered until it is left, and `Beyond` from
then on, and `Run.within_or_beyond` carries both along a run.  Once `a` was left, each import of
such a file leads to another one of them, or to a file that was left before `a` was entered, or
back to a file that the walk was inside of at that time.  In the last case it closed a cycle, and
the way back goes through `a`.

Main result: `found_iff_onward`.  A file occurs in a cycle that is found exactly if it lies on a
cycle of imports `w ⟶ … ⟶ f ⟶ … ⟶ u ⟶ w` whose first part is onward from `w` and whose second part
is onward from `f`.  The file of a cycle that is visited first is always such a file.
-/
import ModuleAtlas.Proofs.CycleReport

namespace ModuleAtlas.Cycle

open Relation

variable {g : Graph} {a b x y : String}

/-! ### The order of the visits -/

/-- The walk visits one file before another one. -/
def Before (g : Graph) (a b : String) : Prop := [a, b].Sublist (visits g)

/-- An import leads to a file that is not visited before `a`. -/
def Forth (g : Graph) (a x y : String) : Prop := Imports g x y ∧ ¬ Before g y a

/-- Imports lead from one file to another through files that are not visited before it. -/
def Onward (g : Graph) (a b : String) : Prop := ReflTransGen (Forth g a) a b

theorem not_sublist_swap {xs : List String} (nodup : xs.Nodup) (h : [a, b].Sublist xs) :
    ¬ [b, a].Sublist xs := by
  intro h'
  induction xs with
  | nil => cases h
  | cons z zs ih =>
    obtain ⟨new, nodup⟩ := List.nodup_cons.1 nodup
    cases h with
    | cons _ h =>
      cases h' with
      | cons _ h' => exact ih nodup h h'
      | cons_cons _ _ => exact new (h.subset (by simp))
    | cons_cons _ h =>
      have later : b ∈ zs := h.subset (by simp)
      cases h' with
      | cons _ h' => exact new (h'.subset (by simp))
      | cons_cons _ _ => exact new later

theorem sublist_or_swap {xs : List String} (ha : a ∈ xs) (hb : b ∈ xs) (other : a ≠ b) :
    [a, b].Sublist xs ∨ [b, a].Sublist xs := by
  induction xs with
  | nil => cases ha
  | cons z zs ih =>
    rcases List.mem_cons.1 ha with rfl | laterA
    · have laterB : b ∈ zs := (List.mem_cons.1 hb).resolve_left (Ne.symm other)
      exact .inl ((List.singleton_sublist.2 laterB).cons_cons a)
    · rcases List.mem_cons.1 hb with rfl | laterB
      · exact .inr ((List.singleton_sublist.2 laterA).cons_cons b)
      · exact (ih laterA laterB).imp (.cons z) (.cons z)

theorem nodup_visits (g : Graph) : (visits g).Nodup := by
  obtain ⟨done, run, -⟩ := run_visits g
  exact List.nodup_reverse.1 run.invariants.1.nodup

/-- The files before one are those behind it where the last one comes first. -/
theorem before_iff {late old : List String} (order : (visits g).reverse = late ++ a :: old) :
    Before g y a ↔ y ∈ old := by
  have order' : visits g = old.reverse ++ a :: late.reverse := by
    rw [← List.reverse_reverse (visits g), order]
    simp
  have nodup := nodup_visits g
  unfold Before
  rw [order'] at nodup ⊢
  constructor
  · intro before
    have mem : y ∈ old.reverse ++ a :: late.reverse := before.subset (by simp)
    rcases List.mem_append.1 mem with mem | mem
    · exact List.mem_reverse.1 mem
    · rcases List.mem_cons.1 mem with rfl | mem
      · exact absurd before (not_sublist_swap nodup before)
      · -- then `a` would come first
        have after : [a, y].Sublist (old.reverse ++ a :: late.reverse) :=
          ((List.singleton_sublist.2 mem).cons_cons a).trans (List.sublist_append_right _ _)
        exact absurd after (not_sublist_swap nodup before)
  · intro mem
    have mem : y ∈ old.reverse := List.mem_reverse.2 mem
    exact (List.singleton_sublist.2 mem).append (List.singleton_sublist.2 List.mem_cons_self)

/-! ### Files that are entered -/

/-- The walk has just gone into `a`, from the files of `outer`, after it visited those of
`old`. -/
structure State.Enters (g : Graph) (r : State) (a : String) (old : List String)
    (outer : List Frame) : Prop where
  visited : r.visited = a :: old
  stack : r.stack = ⟨a, neighbours g a⟩ :: outer

/-- Every file that was visited was entered at some time. -/
theorem Run.exists_enters {s : State} (run : Run g {} s) (h : a ∈ s.visited) :
    ∃ r old outer, r.Enters g a old outer ∧ Run g {} r ∧ Run g r s := by
  induction run with
  | refl => cases h
  | @tail s t run step ih =>
    by_cases earlier : a ∈ s.visited
    · obtain ⟨r, old, outer, enters, before, after⟩ := ih earlier
      exact ⟨r, old, outer, enters, before, after.tail step⟩
    · have whole : Run g {} t := run.tail step
      cases step with
      | start =>
        obtain rfl := (List.mem_cons.1 h).resolve_right earlier
        exact ⟨_, _, _, ⟨rfl, rfl⟩, whole, .refl⟩
      | enter =>
        obtain rfl := (List.mem_cons.1 h).resolve_right earlier
        exact ⟨_, _, _, ⟨rfl, rfl⟩, whole, .refl⟩
      | leave | close | pass => exact absurd h earlier

/-- The files that were left are visited ones that the walk is not inside of. -/
def Apart (s : State) : Prop := ∀ p ∈ s.done, p ∈ s.visited ∧ p ∉ s.inside

theorem Step.apart {s t : State} (h : Step g s t) (simple : Simple g s) (inv : Apart s) :
    Apart t := by
  intro p hp
  cases h with
  | @start visited done found path has new =>
    have old : p ∈ visited := (inv p hp).1
    refine ⟨List.mem_cons_of_mem _ old, fun inside => ?_⟩
    obtain rfl := List.mem_singleton.1 inside
    exact new old
  | @leave visited path outer done found =>
    rcases List.mem_cons.1 hp with rfl | hp
    · exact ⟨simple.inside.subset List.mem_cons_self, simple.path_notMem⟩
    · obtain ⟨old, outside⟩ := inv p hp
      exact ⟨old, fun inside => outside (List.mem_cons_of_mem _ inside)⟩
  | close | pass => exact inv p hp
  | @enter visited path next left outer done found has new =>
    obtain ⟨old, outside⟩ := inv p hp
    refine ⟨List.mem_cons_of_mem _ old, fun inside => ?_⟩
    rcases List.mem_cons.1 inside with rfl | inside
    exacts [new old, outside inside]

theorem Run.apart {s : State} (run : Run g {} s) : Apart s := by
  induction run with
  | refl => exact nofun
  | tail run step ih => exact step.apart (Run.invariants run).1 ih

section

variable {r s t : State} {old past inner left : List String} {outer upper : List Frame}
variable {found found' : List (List String)}

/-- When a file is entered, those visited before are around it or were left. -/
theorem State.Enters.mem_old_iff (enters : r.Enters g a old outer) (run : Run g {} r) :
    y ∈ old ↔ y ∈ outer.map Frame.path ∨ y ∈ r.done := by
  obtain ⟨simple, ordered, -⟩ := run.invariants
  have inside : r.inside = a :: outer.map Frame.path := by
    rw [State.inside, enters.stack, List.map_cons]
  have nodup : a ∉ old := (List.nodup_cons.1 (enters.visited ▸ simple.nodup)).1
  constructor
  · intro mem
    have visited : y ∈ r.visited := enters.visited ▸ List.mem_cons_of_mem a mem
    rcases ordered.parted y visited with mem' | left
    · rw [inside] at mem'
      refine .inl ((List.mem_cons.1 mem').resolve_left ?_)
      rintro rfl
      exact nodup mem
    · exact .inr left
  · rintro (mem | left)
    · have around : (outer.map Frame.path).Sublist old := by
        have both := simple.inside
        rw [inside, enters.visited] at both
        exact List.cons_sublist_cons.1 both
      exact around.subset mem
    · obtain ⟨visited, outside⟩ := run.apart y left
      rw [enters.visited] at visited
      refine (List.mem_cons.1 visited).resolve_left ?_
      rintro rfl
      exact outside (inside ▸ List.mem_cons_self)

/-! ### Inside of a file and after it -/

/-- An import of a file that the walk is inside of is still to be followed. -/
def Ahead (stack : List Frame) (x y : String) : Prop := ∃ f ∈ stack, f.path = x ∧ y ∈ f.left

/-- Where an import of `x` leads, if `x` is one of the files `inner` visited since `a` was
entered, or `a` itself: to such a file, to one that was left before, or to one that the walk
was inside of, and then a cycle through `a` was closed. -/
def Met (a : String) (outer : List Frame) (past inner : List String)
    (found : List (List String)) (x y : String) : Prop :=
  y ∈ inner ∨ y ∈ past ∨ y ∈ a :: outer.map Frame.path ∧ ∃ c ∈ found, a ∈ c ∧ [x, y] <:+ c

theorem Met.mono {inner' : List String} (h : Met a outer past inner found x y)
    (more : inner ⊆ inner') (grows : found ⊆ found') : Met a outer past inner' found' x y := by
  rcases h with h | h | ⟨h, c, hc, through⟩
  · exact .inl (more h)
  · exact .inr (.inl h)
  · exact .inr (.inr ⟨h, c, grows hc, through⟩)

/-- The walk is inside of `a`, and has visited the files `inner` since. -/
structure Within (g : Graph) (a : String) (old : List String) (outer : List Frame)
    (past : List String) (s : State) (upper : List Frame) (left inner : List String) : Prop where
  stack : s.stack = upper ++ ⟨a, left⟩ :: outer
  visited : s.visited = inner ++ a :: old
  upper_subset : upper.map Frame.path ⊆ inner
  met : ∀ x ∈ a :: inner, ∀ y, Imports g x y →
    Ahead s.stack x y ∨ Met a outer past inner s.found x y

/-- The walk has left `a`, and all the files `inner` that it visited inside of it. -/
structure Beyond (g : Graph) (a : String) (old : List String) (outer : List Frame)
    (past : List String) (s : State) (inner : List String) : Prop where
  left : a :: inner ⊆ s.done
  fresh : ∀ x ∈ inner, x ∉ a :: old
  met : ∀ x ∈ a :: inner, ∀ y, Imports g x y → Met a outer past inner s.found x y

theorem within_of_enters (enters : r.Enters g a old outer) :
    Within g a old outer r.done r [] (neighbours g a) [] where
  stack := enters.stack
  visited := enters.visited
  upper_subset := by simp
  met x hx y link := by
    obtain rfl := List.mem_singleton.1 hx
    refine .inl ⟨⟨x, neighbours g x⟩, ?_, rfl, mem_neighbours_iff.2 link⟩
    rw [enters.stack]
    exact List.mem_cons_self

variable {visited left' done done' : List String} {path next : String} {out : List Frame}

/-- The walk stays inside of `a` while it follows the imports of the innermost file. -/
theorem exists_split (left'' : List String)
    (split : ⟨path, left'⟩ :: out = upper ++ ⟨a, left⟩ :: outer) :
    ∃ upper' left, ⟨path, left''⟩ :: out = upper' ++ ⟨a, left⟩ :: outer ∧
      upper'.map Frame.path = upper.map Frame.path := by
  cases upper with
  | nil =>
    obtain ⟨top, rfl⟩ := List.cons.inj split
    obtain ⟨rfl, rfl⟩ := Frame.mk.inj top
    exact ⟨[], left'', rfl, rfl⟩
  | cons u us =>
    obtain ⟨rfl, rfl⟩ := List.cons.inj split
    exact ⟨⟨path, left''⟩ :: us, left, rfl, rfl⟩

theorem ahead_cases (h : Ahead (⟨path, next :: left'⟩ :: out) x y) :
    x = path ∧ y = next ∨ Ahead (⟨path, left'⟩ :: out) x y := by
  obtain ⟨f, hf, rfl, hy⟩ := h
  rcases List.mem_cons.1 hf with rfl | hf
  · rcases List.mem_cons.1 hy with rfl | hy
    · exact .inl ⟨rfl, rfl⟩
    · exact .inr ⟨_, List.mem_cons_self, rfl, hy⟩
  · exact .inr ⟨f, List.mem_cons_of_mem _ hf, rfl, hy⟩

/-- An import that was followed is ahead no more. -/
theorem Within.advance
    (h : Within g a old outer past ⟨visited, ⟨path, next :: left'⟩ :: out, done, found⟩
      upper left inner)
    (grows : found ⊆ found') (here : Met a outer past inner found' path next) :
    ∃ upper left, Within g a old outer past ⟨visited, ⟨path, left'⟩ :: out, done', found'⟩
      upper left inner := by
  obtain ⟨upper', left'', split, same⟩ := exists_split left' h.stack
  refine ⟨upper', left'', split, h.visited, same ▸ h.upper_subset, fun x hx y link => ?_⟩
  rcases h.met x hx y link with ahead | met
  · rcases ahead_cases ahead with ⟨rfl, rfl⟩ | ahead
    exacts [.inr here, .inl ahead]
  · exact .inr (met.mono (List.Subset.refl _) grows)

/-- The way back to a file that is around `a`, or to `a`, goes through `a`. -/
theorem mem_wayBack (left' : List String)
    (split : path :: out.map Frame.path = upper.map Frame.path ++ a :: outer.map Frame.path)
    (further : next ∉ upper.map Frame.path) : a ∈ wayBack (⟨path, left'⟩ :: out) next := by
  by_cases same : a = next
  · subst same
    exact List.mem_cons_self
  · have passed : a ∈ (path :: out.map Frame.path).takeWhile (· != next) := by
      rw [split, List.takeWhile_append_of_pos]
      · rw [List.takeWhile_cons_of_pos (by simpa using same)]
        exact List.mem_append_right _ List.mem_cons_self
      · intro p hp
        have other : p ≠ next := by
          rintro rfl
          exact further hp
        simpa using other
    unfold wayBack
    exact List.mem_cons_of_mem _ (List.mem_append_left _ (List.mem_reverse.2 passed))

/-- **What a step keeps inside of a file.**  The walk is still inside of it afterwards, or it has
just left it. -/
theorem Within.step (enters : r.Enters g a old outer) (start : Run g {} r) (run : Run g {} s)
    (h : Within g a old outer r.done s upper left inner) (step : Step g s t) :
    (∃ upper left inner, Within g a old outer r.done t upper left inner) ∨
      ∃ inner, Beyond g a old outer r.done t inner := by
  have after : Run g {} t := run.tail step
  obtain ⟨simple, -, -⟩ := run.invariants
  have fresh : ∀ x ∈ inner, x ∉ a :: old := by
    have nodup := simple.nodup
    rw [h.visited] at nodup
    exact fun x hx hx' => (List.disjoint_of_nodup_append nodup) hx hx'
  have paths := congrArg (List.map Frame.path) h.stack
  rw [List.map_append, List.map_cons] at paths
  cases step with
  | start => exact absurd h.stack (by simp)
  | @leave visited path out done found =>
    cases upper with
    | nil =>
      -- `a` itself is left: nothing is ahead any more, and what was visited since was left before
      obtain ⟨top, rfl⟩ := List.cons.inj h.stack
      obtain ⟨rfl, rfl⟩ := Frame.mk.inj top
      refine .inr ⟨inner, ?_, fresh, fun x hx y link => ?_⟩
      · rintro p (_ | ⟨_, hp⟩)
        · exact List.mem_cons_self
        · have seen : p ∈ visited := by
            have all : visited = inner ++ path :: old := h.visited
            exact all ▸ List.mem_append_left _ hp
          refine (after.invariants.2.1.parted p seen).resolve_left fun inside => ?_
          exact fresh p hp (List.mem_cons_of_mem _ ((enters.mem_old_iff start).2 (.inl inside)))
      · refine (h.met x hx y link).resolve_left ?_
        rintro ⟨f, hf, rfl, hy⟩
        rcases List.mem_cons.1 hf with rfl | hf
        · cases hy
        · have around : f.path ∈ old :=
            (enters.mem_old_iff start).2 (.inl (List.mem_map_of_mem hf))
          rcases List.mem_cons.1 hx with same | hx
          · exact simple.path_notMem (same ▸ List.mem_map_of_mem hf)
          · exact fresh _ hx (List.mem_cons_of_mem _ around)
    | cons u us =>
      obtain ⟨rfl, rfl⟩ := List.cons.inj h.stack
      refine .inl ⟨us, left, inner, rfl, h.visited, ?_, fun x hx y link => ?_⟩
      · exact fun p hp => h.upper_subset (List.mem_cons_of_mem _ hp)
      · rcases h.met x hx y link with ⟨f, hf, rfl, hy⟩ | met
        · rcases List.mem_cons.1 hf with rfl | hf
          · cases hy
          · exact .inl ⟨f, hf, rfl, hy⟩
        · exact .inr met
  | @close visited path next left' out done found inside =>
    have here : Met a outer r.done inner (found ++ [wayBack (⟨path, left'⟩ :: out) next])
        path next := by
      have paths : path :: out.map Frame.path
          = upper.map Frame.path ++ a :: outer.map Frame.path := paths
      by_cases above : next ∈ upper.map Frame.path
      · exact .inl (h.upper_subset above)
      · rw [paths] at inside
        have below := (List.mem_append.1 inside).resolve_left above
        rw [← paths] at inside
        obtain ⟨way, eq, -⟩ := wayBack_eq left' inside
        refine .inr (.inr ⟨below, _, List.mem_append_right _ List.mem_cons_self, ?_, ?_⟩)
        · exact mem_wayBack left' paths above
        · exact eq ▸ List.suffix_append _ _
    obtain ⟨upper', left'', within⟩ := h.advance (List.subset_append_left _ _) here
    exact .inl ⟨upper', left'', inner, within⟩
  | @enter visited path next left' out done found has new =>
    obtain ⟨upper', left'', split, same⟩ := exists_split left' h.stack
    have more : inner ⊆ next :: inner := List.subset_cons_self _ _
    refine .inl ⟨⟨next, neighbours g next⟩ :: upper', left'', next :: inner, ?_, ?_, ?_, ?_⟩
    · exact congrArg (_ :: ·) split
    · exact congrArg (next :: ·) h.visited
    · rintro p (_ | ⟨_, hp⟩)
      · exact List.mem_cons_self
      · exact more (h.upper_subset (same ▸ hp))
    · intro x hx y link
      by_cases isNew : x = next
      · subst isNew
        exact .inl ⟨_, List.mem_cons_self, rfl, mem_neighbours_iff.2 link⟩
      · have hx : x ∈ a :: inner := by simpa [isNew] using hx
        rcases h.met x hx y link with ahead | met
        · rcases ahead_cases ahead with ⟨rfl, rfl⟩ | ⟨f, hf, ahead⟩
          exacts [.inr (.inl List.mem_cons_self), .inl ⟨f, List.mem_cons_of_mem _ hf, ahead⟩]
        · exact .inr (met.mono more (List.Subset.refl _))
  | @pass visited path next left' out done found outside seen =>
    have here : Met a outer r.done inner found path next := by
      obtain ⟨-, -, -, has⟩ := simple.imports
      have all : visited = inner ++ a :: old := h.visited
      have paths : path :: out.map Frame.path
          = upper.map Frame.path ++ a :: outer.map Frame.path := paths
      rw [paths] at outside
      rcases List.mem_append.1 (all ▸ seen has) with since | before
      · exact .inl since
      · rcases List.mem_cons.1 before with rfl | before
        · exact absurd (List.mem_append_right _ List.mem_cons_self) outside
        · -- a file from before that is not around `a` was left
          refine .inr (.inl (((enters.mem_old_iff start).1 before).resolve_left fun around => ?_))
          exact outside (List.mem_append_right _ (List.mem_cons_of_mem _ around))
    obtain ⟨upper', left'', within⟩ := h.advance (List.Subset.refl _) here
    exact .inl ⟨upper', left'', inner, within⟩

theorem Step.done_subset (h : Step g s t) : s.done ⊆ t.done := by
  cases h with
  | leave => exact List.subset_cons_self _ _
  | start | close | enter | pass => exact List.Subset.refl _

theorem Step.found_subset (h : Step g s t) : s.found ⊆ t.found := by
  cases h with
  | close => exact List.subset_append_left _ _
  | start | leave | enter | pass => exact List.Subset.refl _

theorem Beyond.step (h : Beyond g a old outer past s inner) (step : Step g s t) :
    Beyond g a old outer past t inner where
  left := List.Subset.trans h.left step.done_subset
  fresh := h.fresh
  met x hx y link := (h.met x hx y link).mono (List.Subset.refl _) step.found_subset

/-- **A file is entered, gone through and left.** -/
theorem Run.within_or_beyond (enters : r.Enters g a old outer) (start : Run g {} r)
    (run : Run g r s) :
    (∃ upper left inner, Within g a old outer r.done s upper left inner) ∨
      ∃ inner, Beyond g a old outer r.done s inner := by
  induction run with
  | refl => exact .inl ⟨_, _, _, within_of_enters enters⟩
  | tail run step ih =>
    rcases ih with ⟨upper, left, inner, within⟩ | ⟨inner, beyond⟩
    · exact within.step enters start (start.trans run) step
    · exact .inr ⟨inner, beyond.step step⟩

theorem Step.visited_suffix (h : Step g s t) : s.visited <:+ t.visited := by
  cases h with
  | start | enter => exact List.suffix_cons _ _
  | leave | close | pass => exact List.suffix_rfl

theorem Run.visited_suffix (run : Run g s t) : s.visited <:+ t.visited := by
  induction run with
  | refl => exact List.suffix_rfl
  | tail _ step ih => exact ih.trans step.visited_suffix

/-- The files before `a` are those that were visited when it was entered. -/
theorem State.Enters.before_iff (enters : r.Enters g a old outer)
    (run : Run g r ⟨(visits g).reverse, out, done, found⟩) : Before g y a ↔ y ∈ old := by
  obtain ⟨late, order⟩ := Run.visited_suffix run
  rw [enters.visited] at order
  exact Cycle.before_iff order.symm

/-- Imports that go onward from `a` lead to what was visited inside of it. -/
theorem Beyond.mem_of_onward (enters : r.Enters g a old outer) (start : Run g {} r)
    (before : ∀ y, Before g y a ↔ y ∈ old) (h : Beyond g a old outer r.done s inner)
    (onward : Onward g a b) : b ∈ a :: inner := by
  induction onward with
  | refl => exact List.mem_cons_self
  | @tail x y _ forth ih =>
    obtain ⟨link, late⟩ := forth
    rw [before, enters.mem_old_iff start, not_or] at late
    rcases h.met x ih y link with since | left | ⟨around, -⟩
    · exact List.mem_cons_of_mem a since
    · exact absurd left late.2
    · rcases List.mem_cons.1 around with rfl | around
      · exact List.mem_cons_self
      · exact absurd around late.1

end

/-! ### Files on cycles -/

variable {f u w : String} {c : List String}

theorem mem_visits_of_imports (link : Imports g x y) : x ∈ visits g ∧ y ∈ visits g := by
  obtain ⟨done, -, all⟩ := run_visits g
  obtain ⟨n, node, -, has⟩ := link
  exact ⟨all x (Graph.has_of_node? node), all y has⟩

/-- A file that goes onward is visited before all others that it leads to. -/
theorem Onward.eq_or_before (onward : Onward g a b) : a = b ∨ Before g a b := by
  rcases ReflTransGen.cases_tail onward with same | ⟨x, way, link, late⟩
  · exact .inl same.symm
  · by_cases same : a = b
    · exact .inl same
    · have ha : a ∈ visits g := by
        rcases ReflTransGen.cases_head way with rfl | ⟨y, ⟨first, -⟩, -⟩
        exacts [(mem_visits_of_imports link).1, (mem_visits_of_imports first).1]
      have hb : b ∈ visits g := (mem_visits_of_imports link).2
      exact .inr ((sublist_or_swap ha hb same).resolve_right late)

/-- **A cycle that goes onward is found**: the import that closes it closes one that was found,
which goes through the same file. -/
theorem exists_found_of_onward (first : Onward g w f) (second : Onward g f u)
    (link : Imports g u w) : ∃ c ∈ paths g, f ∈ c ∧ [u, w] <:+ c := by
  obtain ⟨done, run, -⟩ := run_visits g
  have hw : w ∈ visits g := (mem_visits_of_imports link).2
  have hf : f ∈ visits g := by
    rcases first.eq_or_before with rfl | before
    exacts [hw, before.subset (by simp)]
  obtain ⟨r, old, outer, enters, start, rest⟩ := Run.exists_enters run (List.mem_reverse.2 hf)
  have before : ∀ y, Before g y f ↔ y ∈ old := fun y => enters.before_iff rest
  have inside : r.inside = f :: outer.map Frame.path := by
    rw [State.inside, enters.stack, List.map_cons]
  -- the walk is inside of `w` when it enters `f`, since it has not left what it finds in `w`
  have around : w ∈ f :: outer.map Frame.path := by
    have seen : w ∈ r.visited := by
      rw [enters.visited]
      rcases first.eq_or_before with rfl | earlier
      exacts [List.mem_cons_self, List.mem_cons_of_mem _ ((before w).1 earlier)]
    obtain ⟨r', old', outer', enters', start', rest'⟩ := Run.exists_enters start seen
    rcases Run.within_or_beyond enters' start' rest' with ⟨upper, left, inner, within⟩ | ⟨inner, beyond⟩
    · rw [← inside, State.inside, within.stack, List.map_append]
      exact List.mem_append_right _ List.mem_cons_self
    · have before' : ∀ y, Before g y w ↔ y ∈ old' :=
        fun y => enters'.before_iff (rest'.trans rest)
      have left : f ∈ r.done := beyond.left (beyond.mem_of_onward enters' start' before' first)
      exact absurd (inside ▸ List.mem_cons_self) (start.apart f left).2
  rcases Run.within_or_beyond enters start rest with ⟨upper, left, inner, within⟩ | ⟨inner, beyond⟩
  · exact absurd within.stack (by simp)
  · have hu : u ∈ f :: inner := beyond.mem_of_onward enters start before second
    rcases beyond.met u hu w link with since | left | ⟨-, c, hc, through, closes⟩
    · -- `w` was visited before `f`, or is `f`, and not since
      refine absurd ?_ (beyond.fresh w since)
      rcases List.mem_cons.1 around with rfl | around
      · exact List.mem_cons_self
      · exact List.mem_cons_of_mem _ ((enters.mem_old_iff start).2 (.inl around))
    · exact absurd (inside ▸ around) (start.apart w left).2
    · exact ⟨c, hc, through, closes⟩

/-- Along files of which none is visited before `a`, imports go forth. -/
theorem forth_of_isChain {xs : List String} (linked : (x :: xs).IsChain (Imports g))
    (late : ∀ y ∈ xs, ¬ Before g y a) (hy : y ∈ x :: xs) : ReflTransGen (Forth g a) x y := by
  induction xs generalizing x with
  | nil =>
    obtain rfl := List.mem_singleton.1 hy
    exact .refl
  | cons z zs ih =>
    obtain ⟨link, linked⟩ := List.isChain_cons_cons.1 linked
    rcases List.mem_cons.1 hy with rfl | hy
    · exact .refl
    · have rest := ih linked (fun y hy => late y (List.mem_cons_of_mem z hy)) hy
      exact .head ⟨link, late z List.mem_cons_self⟩ rest

/-- The files of a cycle that was found are in the order of their visits. -/
theorem exists_onward_of_mem (hc : c ∈ paths g) (hf : f ∈ c) :
    ∃ w u, Onward g w f ∧ Onward g f u ∧ Imports g u w := by
  obtain ⟨done, run, -⟩ := run_visits g
  obtain ⟨cycle, order⟩ := run.invariants.2.2.cycles c hc
  have order : c.dropLast.Sublist (visits g) := List.reverse_sublist.1 order
  have later : ∀ {x y xs}, (x :: xs).Sublist (visits g) → y ∈ xs → ¬ Before g y x := by
    intro x y xs sub hy
    exact not_sublist_swap (nodup_visits g) (((List.singleton_sublist.2 hy).cons_cons x).trans sub)
  have whole := cycle.eq_dropLast_append
  have linked := cycle.linked
  rw [whole] at hf linked
  generalize c.dropLast = xs at order hf linked
  -- the cycle starts at `w`, comes to `f`, and closes with an import of its last file
  rcases xs with - | ⟨w, ws⟩
  · cases hf
  · have hf : f ∈ w :: ws := by
      rcases List.mem_append.1 hf with hf | hf
      · exact hf
      · obtain rfl : f = w := by simpa using hf
        exact List.mem_cons_self
    obtain ⟨way, closing⟩ := List.isChain_append.1 linked
    have reaches : Onward g w f := forth_of_isChain way (fun y hy => later order hy) hf
    obtain ⟨pre, post, split⟩ := List.append_of_mem hf
    have rest : (f :: post).IsChain (Imports g) := by
      rw [split] at way
      exact way.right_of_append
    have restOrder : (f :: post).Sublist (visits g) := by
      rw [split] at order
      exact (List.sublist_append_right _ _).trans order
    have last : (w :: ws).getLast? = some ((f :: post).getLast (List.cons_ne_nil f post)) := by
      rw [split, List.getLast?_append, List.getLast?_eq_some_getLast (List.cons_ne_nil f post)]
      rfl
    refine ⟨w, (f :: post).getLast (List.cons_ne_nil f post), reaches, ?_, ?_⟩
    · exact forth_of_isChain rest (fun y hy => later restOrder hy) (List.getLast_mem _)
    · exact closing.2 _ last w (by simp)

/-- A cycle can be followed from each of its files. -/
theorem IsCycle.exists_rotation (cycle : IsCycle g c) (hw : w ∈ c) :
    ∃ xs, (∀ x ∈ xs, x ∈ c) ∧ (w :: xs ++ [w]).IsChain (Imports g) := by
  have whole := cycle.eq_dropLast_append
  have linked := cycle.linked
  have long := cycle.long
  rw [whole] at hw linked ⊢
  generalize c.dropLast = ys at hw linked
  have hw : w ∈ ys := by
    rcases List.mem_append.1 hw with hw | hw
    · exact hw
    · exact List.mem_of_mem_head? (Option.mem_toList.1 hw)
  obtain ⟨pre, post, rfl⟩ := List.append_of_mem hw
  obtain ⟨way, -, closing⟩ := List.isChain_append.1 linked
  have toStart : (pre ++ [w]).IsChain (Imports g) := by
    have split : pre ++ w :: post = (pre ++ [w]) ++ post := by simp
    rw [split] at way
    exact way.left_of_append
  have start : (pre ++ [w]).head? = (pre ++ w :: post).head? := by
    cases pre <;> rfl
  refine ⟨post ++ pre, ?_, ?_⟩
  · intro x hx
    refine List.mem_append_left _ ?_
    rcases List.mem_append.1 hx with hx | hx
    · exact List.mem_append_right _ (List.mem_cons_of_mem w hx)
    · exact List.mem_append_left _ hx
  · -- first behind `w` to the end, then over the last import to the start, and on to `w`
    have split : w :: (post ++ pre) ++ [w] = (w :: post) ++ (pre ++ [w]) := by simp
    rw [split, List.isChain_append]
    refine ⟨way.right_of_append, toStart, fun x hx y hy => closing x ?_ y ?_⟩
    · rw [List.getLast?_append, hx]
      rfl
    · rw [start] at hy
      rw [hy]
      rfl

/-- The file of a cycle that is visited first goes onward all around it. -/
theorem IsCycle.exists_first (cycle : IsCycle g c) :
    ∃ w ∈ c, (∀ x ∈ c, ¬ Before g x w) ∧ ∃ u, Onward g w u ∧ Imports g u w := by
  have met : ∃ x ∈ visits g, x ∈ c := by
    obtain ⟨a, b, pre, split⟩ := cycle.exists_closing
    have linked := cycle.linked
    rw [← split] at linked
    have link := (List.isChain_cons_cons.1 linked.right_of_append).1
    exact ⟨a, (mem_visits_of_imports link).1, split ▸ List.mem_append_right _ List.mem_cons_self⟩
  obtain ⟨w, first⟩ : ∃ w, (visits g).find? (fun x => decide (x ∈ c)) = some w := by
    rw [← Option.isSome_iff_exists, List.find?_isSome]
    simpa using met
  obtain ⟨hw, old, late, order, none⟩ := List.find?_eq_some_iff_append.1 first
  have hw : w ∈ c := by simpa using hw
  have late : ∀ x ∈ c, ¬ Before g x w := by
    intro x hx before
    have order : (visits g).reverse = late.reverse ++ w :: old.reverse := by
      rw [order]
      simp
    have earlier : x ∈ old := List.mem_reverse.1 ((before_iff order).1 before)
    simpa [hx] using none x earlier
  obtain ⟨xs, sub, around⟩ := cycle.exists_rotation hw
  obtain ⟨way, -, closing⟩ := List.isChain_append.1 around
  refine ⟨w, hw, late, (w :: xs).getLast (List.cons_ne_nil w xs), ?_, ?_⟩
  · exact forth_of_isChain way (fun x hx => late x (sub x hx)) (List.getLast_mem _)
  · exact closing _ (List.getLast?_eq_some_getLast _) w rfl

/-- **Which files occur in the cycles that are found.**  A file does exactly if it lies on a cycle of
imports that leads from some file onward to it, and from it onward to the file that closes the
cycle.  So of every cycle at least the file that is visited first occurs in one that is found. -/
theorem found_iff_onward (g : Graph) :
    (∀ f, (∃ c ∈ paths g, f ∈ c ∧ c.map g.relative ∈ all g) ↔
      ∃ w u, Onward g w f ∧ Onward g f u ∧ Imports g u w) ∧
    ∀ c, IsCycle g c → ∃ w ∈ c, (∀ x ∈ c, ¬ Before g x w) ∧
      ∃ d ∈ paths g, w ∈ d ∧ d.map g.relative ∈ all g := by
  have reported : ∀ c ∈ paths g, c.map g.relative ∈ all g := fun c hc => List.mem_map_of_mem hc
  refine ⟨fun f => ⟨?_, ?_⟩, fun c cycle => ?_⟩
  · rintro ⟨c, hc, hf, -⟩
    exact exists_onward_of_mem hc hf
  · rintro ⟨w, u, first, second, link⟩
    obtain ⟨c, hc, hf, -⟩ := exists_found_of_onward first second link
    exact ⟨c, hc, hf, reported c hc⟩
  · obtain ⟨w, hw, late, u, around, link⟩ := cycle.exists_first
    obtain ⟨d, hd, through, -⟩ := exists_found_of_onward .refl around link
    exact ⟨w, hw, late, d, hd, through, reported d hd⟩

/-! ### A cycle that is not found -/

/-- A file that imports from some files. -/
def importer (path : String) (targets : List String) (distinct : targets.Nodup) : Node :=
  { path
    relative := path
    links :=
      { internal := targets.map fun target => (target, [{ specifier := target }])
        distinct := by
          rw [List.map_map]
          show (targets.map id).Nodup
          rwa [List.map_id] } }

/-- Two files that import each other, and a third one between them that can be left out. -/
def detour : Graph :=
  ⟨"/", [importer "a" ["b", "d"] (by decide), importer "b" ["a"] (by decide),
    importer "d" ["b"] (by decide)]⟩

instance (g : Graph) (a b : String) : Decidable (Imports g a b) :=
  decidable_of_iff _ mem_neighbours_iff

theorem isCycle_detour : IsCycle detour ["a", "d", "b", "a"] :=
  ⟨by decide, rfl, by decide, by decide⟩

theorem paths_detour : paths detour = [["a", "b", "a"]] := by
  have starts : detour.paths = ["a", "b", "d"] := by decide
  have a : neighbours detour "a" = ["b", "d"] := by decide
  have b : neighbours detour "b" = ["a"] := by decide
  have d : neighbours detour "d" = ["b"] := by decide
  have hasB : detour.has "b" = true := by decide
  have hasD : detour.has "d" = true := by decide
  simp [paths, starts, pathsFrom, walk, a, b, d, hasB, hasD, wayBack]

/-- The cycle through `d` starts at a file that occurs in a cycle that is found. -/
theorem found_iff_onward_detour :
    IsCycle detour ["a", "d", "b", "a"] ∧
      ∃ w ∈ ["a", "d", "b", "a"], (∀ x ∈ ["a", "d", "b", "a"], ¬ Before detour x w) ∧
        ∃ c ∈ paths detour, w ∈ c ∧ c.map detour.relative ∈ all detour :=
  ⟨isCycle_detour, (found_iff_onward detour).2 _ isCycle_detour⟩

/-- **Not every file on a cycle occurs in one that is found**: `d` does not, since `b` was left when
the walk comes to it from there. -/
theorem file_on_cycle_not_found :
    IsCycle detour ["a", "d", "b", "a"] ∧ ∀ c ∈ all detour, detour.relative "d" ∉ c := by
  refine ⟨isCycle_detour, ?_⟩
  unfold all
  rw [paths_detour]
  decide

end ModuleAtlas.Cycle
