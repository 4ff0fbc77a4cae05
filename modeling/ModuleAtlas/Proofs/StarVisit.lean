/-
ModuleAtlas/Proofs/StarVisit.lean

What an expansion of star exports visits and sees.

`Graph.visibleUpTo` follows star exports with one list of visited files for all of
them, under a bound on the depth.  The bound is never met: `sees_visibleUpTo` turns
the function into the relation `Sees`, which has no bound, wherever more depth is left
than files were not visited.  All that follows is by induction on `Sees`:

* `Sees.mem_visited_iff` — the files that are visited on the way are those which
  star exports reach without coming through a file that was visited before;
* `Sees.mem_names_iff` — a name is seen if one of these files exports it itself;
* `Sees.extends` — what is seen through star exports comes behind what a file exports
  itself, under names that are not taken.
-/
import Mathlib.Data.List.Basic
import Mathlib.Logic.Relation
import ModuleAtlas.Graph.Unvisited
import ModuleAtlas.Graph.Wiring

namespace ModuleAtlas.Graph

variable {g : Graph} {stars : Stars}

/-! ### Star exports from file to file -/

/-- A star export of a file of the graph leads to another file. -/
def StarTo (g : Graph) (stars : Stars) (a b : String) : Prop :=
  ∃ n s, g.node? a = some n ∧ s ∈ starsOf stars a ∧ n.links.supplier? (isOf s) = some b

/-- Star exports lead from a file to another one, or it is the same. -/
abbrev StarReach (g : Graph) (stars : Stars) : String → String → Prop :=
  Relation.ReflTransGen (StarTo g stars)

/-- Star exports lead from a file to another one, and neither these two nor a file on
the way was visited. -/
def Avoiding (g : Graph) (stars : Stars) (visited : List String) (a b : String) : Prop :=
  a ∉ visited ∧ Relation.ReflTransGen (fun x y => StarTo g stars x y ∧ y ∉ visited) a b

/-- A file of the graph exports the name itself. -/
def Owns (g : Graph) (path name : String) : Prop :=
  ∃ n, g.node? path = some n ∧ name ∈ n.exports.map Export.name

theorem Avoiding.notMem {visited : List String} {a b : String}
    (h : Avoiding g stars visited a b) : b ∉ visited := by
  obtain ⟨ha, hab⟩ := h
  rcases hab.cases_tail with rfl | ⟨c, -, step⟩
  exacts [ha, step.2]

theorem Avoiding.mono {visited visited' : List String} {a b : String} (sub : visited ⊆ visited')
    (h : Avoiding g stars visited' a b) : Avoiding g stars visited a b := by
  refine ⟨fun ha => h.1 (sub ha), Relation.ReflTransGen.mono ?_ a b h.2⟩
  exact fun x y hxy => ⟨hxy.1, fun hy => hxy.2 (sub hy)⟩

theorem Avoiding.starReach {visited : List String} {a b : String}
    (h : Avoiding g stars visited a b) : StarReach g stars a b :=
  Relation.ReflTransGen.mono (fun _ _ hxy => hxy.1) a b h.2

/-! ### Exports that are seen through a star -/

section

variable {n : Node} {s : String} {found all more : List Export} {e : Export}

/-- A list of exports grew by re-exports under names that were not taken. -/
def Extends (found all : List Export) : Prop :=
  ∃ added, all = found ++ added ∧ (∀ e ∈ added, e.isReexport = true ∧ e.isDefault = false) ∧
    (added.map Export.name).Nodup ∧ ∀ e ∈ added, e.name ∉ found.map Export.name

theorem Extends.refl (found : List Export) : Extends found found :=
  ⟨[], by simp⟩

theorem Extends.trans {most : List Export} (h : Extends found more) (h' : Extends more most) :
    Extends found most := by
  obtain ⟨xs, rfl, flags, nodup, free⟩ := h
  obtain ⟨ys, rfl, flags', nodup', free'⟩ := h'
  refine ⟨xs ++ ys, List.append_assoc _ _ _, ?_, ?_, ?_⟩
  · intro e he
    rcases List.mem_append.1 he with he | he
    exacts [flags e he, flags' e he]
  · rw [List.map_append]
    refine List.nodup_append.2 ⟨nodup, nodup', ?_⟩
    rintro a ha b hb rfl
    obtain ⟨e, he, rfl⟩ := List.mem_map.1 hb
    refine free' e he ?_
    rw [List.map_append]
    exact List.mem_append_right _ ha
  · intro e he
    rcases List.mem_append.1 he with he | he
    · exact free e he
    · intro taken
      refine free' e he ?_
      rw [List.map_append]
      exact List.mem_append_left _ taken

/-- One more export is added if it is not the default one and its name is free. -/
theorem addThroughStar_eq (n : Node) (s : String) (found : List Export) (e : Export) :
    addThroughStar n s found e =
      if e.isDefault = true ∨ e.name ∈ found.map Export.name then found
      else found ++ [throughStar n s e] := by
  unfold addThroughStar
  have taken : (found.any fun x => x.name == e.name) = true ↔
      e.name ∈ found.map Export.name := by
    rw [List.any_eq_true, List.mem_map]
    simp
  by_cases h : e.isDefault = true ∨ e.name ∈ found.map Export.name
  · rw [if_pos h, if_pos (by rwa [Bool.or_eq_true, taken])]
  · rw [if_neg h, if_neg (by rwa [Bool.or_eq_true, taken])]

theorem extends_addThroughStar (n : Node) (s : String) (found : List Export) (e : Export) :
    Extends found (addThroughStar n s found e) := by
  rw [addThroughStar_eq]
  split
  · exact Extends.refl found
  · next h =>
    refine ⟨[throughStar n s e], rfl, by simp [throughStar], by simp, ?_⟩
    intro x hx
    obtain rfl := List.mem_singleton.1 hx
    exact fun taken => h (.inr taken)

theorem extends_foldl_addThroughStar (n : Node) (s : String) (found more : List Export) :
    Extends found (more.foldl (addThroughStar n s) found) := by
  induction more generalizing found with
  | nil => exact Extends.refl found
  | cons e more ih => exact (extends_addThroughStar n s found e).trans (ih _)

/-- What is there after a file was seen through a star export. -/
theorem mem_foldl_addThroughStar (h : e ∈ more.foldl (addThroughStar n s) found) :
    e ∈ found ∨ ∃ o ∈ more, o.isDefault = false ∧ e = throughStar n s o := by
  induction more generalizing found with
  | nil => exact .inl h
  | cons o more ih =>
    rcases ih h with he | ⟨o', ho', rest⟩
    · rw [addThroughStar_eq] at he
      split at he
      · exact .inl he
      · next free =>
        rcases List.mem_append.1 he with he | he
        · exact .inl he
        · obtain rfl := List.mem_singleton.1 he
          refine .inr ⟨o, List.mem_cons_self, ?_, rfl⟩
          exact Bool.eq_false_iff.2 fun flag => free (.inl flag)
    · exact .inr ⟨o', List.mem_cons_of_mem _ ho', rest⟩

/-- The names after a file was seen through a star export are the names before and
those that it exports not by default. -/
theorem mem_names_foldl_addThroughStar {m : String} :
    m ∈ (more.foldl (addThroughStar n s) found).map Export.name ↔
      m ∈ found.map Export.name ∨ ∃ o ∈ more, o.name = m ∧ o.isDefault = false := by
  constructor
  · intro h
    obtain ⟨e, he, rfl⟩ := List.mem_map.1 h
    rcases mem_foldl_addThroughStar he with he | ⟨o, ho, flag, rfl⟩
    · exact .inl (List.mem_map.2 ⟨e, he, rfl⟩)
    · exact .inr ⟨o, ho, rfl, flag⟩
  · induction more generalizing found with
    | nil => simp
    | cons x more ih =>
      intro h
      refine ih ?_
      rcases h with h | ⟨o, ho, rfl, flag⟩
      · obtain ⟨added, eq, -⟩ := extends_addThroughStar n s found x
        rw [eq, List.map_append]
        exact .inl (List.mem_append_left _ h)
      · rcases List.mem_cons.1 ho with rfl | ho
        · left
          rw [addThroughStar_eq]
          by_cases taken : o.name ∈ found.map Export.name
          · rwa [if_pos (.inr taken)]
          · rw [if_neg (by simp [flag, taken])]
            simp [throughStar]
        · exact .inr ⟨o, ho, rfl, flag⟩

end

/-! ### The visit as a relation -/

/-- What is to be seen: the exports of a file, or those found for a node with those of
some more of its star exports. -/
inductive Task where
  | file (path : String)
  | through (n : Node) (specifiers : List String) (found : List Export)

/-- The exports that are there before anything is visited. -/
def Task.found : Task → List Export
  | .file _ => []
  | .through _ _ found => found

/-- The file is one that is to be visited. -/
def Task.Root : Task → String → Prop
  | .file path, x => x = path
  | .through n specifiers _, x => ∃ s ∈ specifiers, n.links.supplier? (isOf s) = some x

/-- The exports that are seen and the files that are visited in the end, by the files
that were visited before. -/
inductive Sees (g : Graph) (stars : Stars) :
    Task → List String → List Export → List String → Prop
  | seen {path visited} : path ∈ visited → Sees g stars (.file path) visited [] visited
  | missing {path visited} :
      path ∉ visited → g.node? path = none →
      Sees g stars (.file path) visited [] (path :: visited)
  | node {path n visited all visited'} :
      path ∉ visited → g.node? path = some n →
      Sees g stars (.through n (starsOf stars path) n.exports) (path :: visited) all visited' →
      Sees g stars (.file path) visited all visited'
  | done {n found visited} : Sees g stars (.through n [] found) visited found visited
  | skip {n s rest found visited all visited'} :
      n.links.supplier? (isOf s) = none →
      Sees g stars (.through n rest found) visited all visited' →
      Sees g stars (.through n (s :: rest) found) visited all visited'
  | star {n s rest found visited target more visited₁ all visited'} :
      n.links.supplier? (isOf s) = some target →
      Sees g stars (.file target) visited more visited₁ →
      Sees g stars (.through n rest (more.foldl (addThroughStar n s) found)) visited₁ all
        visited' →
      Sees g stars (.through n (s :: rest) found) visited all visited'

section

variable {t : Task} {visited visited' : List String} {all : List Export}

theorem Sees.subset (h : Sees g stars t visited all visited') : visited ⊆ visited' := by
  induction h with
  | seen | done => exact List.Subset.refl _
  | missing => exact List.subset_cons_self _ _
  | node _ _ _ ih => exact List.Subset.trans (List.subset_cons_self _ _) ih
  | skip _ _ ih => exact ih
  | star _ _ _ ih₁ ih₂ => exact List.Subset.trans ih₁ ih₂

/-! ### What is visited -/

theorem Sees.root_mem (h : Sees g stars t visited all visited') {x : String} (hx : t.Root x) :
    x ∈ visited' := by
  induction h with
  | seen mem =>
    obtain rfl := hx
    exact mem
  | missing =>
    obtain rfl := hx
    exact List.mem_cons_self
  | node _ _ rest _ =>
    obtain rfl := hx
    exact rest.subset List.mem_cons_self
  | done =>
    obtain ⟨s, hs, -⟩ := hx
    cases hs
  | @skip n s rest found visited all visited' none h ih =>
    obtain ⟨s', hs', eq⟩ := hx
    rcases List.mem_cons.1 hs' with rfl | hs'
    · rw [none] at eq
      cases eq
    · exact ih ⟨s', hs', eq⟩
  | @star n s rest found visited target more visited₁ all visited' some h₁ h₂ ih₁ ih₂ =>
    obtain ⟨s', hs', eq⟩ := hx
    rcases List.mem_cons.1 hs' with rfl | hs'
    · obtain rfl := Option.some.inj (some.symm.trans eq)
      exact h₂.subset (ih₁ rfl)
    · exact ih₂ ⟨s', hs', eq⟩

/-- The star exports of a file that is visited on the way lead to visited files. -/
theorem Sees.closed (h : Sees g stars t visited all visited') {x y : String}
    (hx : x ∈ visited') (new : x ∉ visited) (hxy : StarTo g stars x y) : y ∈ visited' := by
  induction h with
  | seen | done => exact absurd hx new
  | @missing path visited _ none =>
    obtain ⟨n, s, some, -⟩ := hxy
    obtain rfl := (List.mem_cons.1 hx).resolve_right new
    rw [none] at some
    cases some
  | @node path n visited all visited' _ some h ih =>
    by_cases eq : x = path
    · -- the star exports of the file itself are the roots of what comes next
      subst eq
      obtain ⟨n', s, some', hs, target⟩ := hxy
      obtain rfl := Option.some.inj (some.symm.trans some')
      exact h.root_mem ⟨s, hs, target⟩
    · exact ih hx (by simp [eq, new])
  | skip _ _ ih => exact ih hx new
  | @star n s rest found visited target more visited₁ all visited' _ _ h₂ ih₁ ih₂ =>
    by_cases first : x ∈ visited₁
    · exact h₂.subset (ih₁ first new)
    · exact ih₂ hx first

theorem Sees.exists_avoiding (h : Sees g stars t visited all visited') {x : String}
    (hx : x ∈ visited') (new : x ∉ visited) :
    ∃ r, t.Root r ∧ Avoiding g stars visited r x := by
  induction h with
  | seen | done => exact absurd hx new
  | @missing path visited =>
    obtain rfl := (List.mem_cons.1 hx).resolve_right new
    exact ⟨x, rfl, new, .refl⟩
  | @node path n visited all visited' fresh some h ih =>
    refine ⟨path, rfl, fresh, ?_⟩
    by_cases eq : x = path
    · rw [eq]
    · obtain ⟨r, ⟨s, hs, target⟩, way⟩ := ih hx (by simp [eq, new])
      have way := way.mono (List.subset_cons_self path visited)
      exact .head ⟨⟨n, s, some, hs, target⟩, way.1⟩ way.2
  | skip _ _ ih =>
    obtain ⟨r, ⟨s, hs, target⟩, way⟩ := ih hx new
    exact ⟨r, ⟨s, List.mem_cons_of_mem _ hs, target⟩, way⟩
  | @star n s rest found visited target more visited₁ all visited' some h₁ _ ih₁ ih₂ =>
    by_cases first : x ∈ visited₁
    · obtain ⟨r, rfl, way⟩ := ih₁ first new
      exact ⟨r, ⟨s, List.mem_cons_self, some⟩, way⟩
    · -- a way that avoids what the first star export visited avoids what was visited before
      obtain ⟨r, ⟨s', hs', target'⟩, way⟩ := ih₂ hx first
      exact ⟨r, ⟨s', List.mem_cons_of_mem _ hs', target'⟩, way.mono h₁.subset⟩

/-- Once such a way has come to a visited file, it stays in visited files. -/
theorem Sees.mem_of_avoiding (h : Sees g stars t visited all visited') {a x : String}
    (ha : a ∈ visited') (way : Avoiding g stars visited a x) : x ∈ visited' := by
  obtain ⟨new, way⟩ := way
  induction way with
  | refl => exact ha
  | @tail b c before step ih =>
    have inside : Avoiding g stars visited a b := ⟨new, before⟩
    exact h.closed ih inside.notMem step.1

/-- **What is visited**: the files that star exports reach from the roots without
coming through a file that was visited before. -/
theorem Sees.mem_visited_iff (h : Sees g stars t visited all visited') {x : String} :
    x ∈ visited' ∧ x ∉ visited ↔ ∃ r, t.Root r ∧ Avoiding g stars visited r x := by
  constructor
  · rintro ⟨hx, new⟩
    exact h.exists_avoiding hx new
  · rintro ⟨r, root, way⟩
    exact ⟨h.mem_of_avoiding (h.root_mem root) way, way.notMem⟩

/-! ### What is seen -/

/-- What is seen comes behind what was there before. -/
theorem Sees.extends {n : Node} {specifiers : List String} {found : List Export}
    (h : Sees g stars (.through n specifiers found) visited all visited') :
    Extends found all := by
  induction specifiers generalizing found visited with
  | nil =>
    cases h with
    | done => exact Extends.refl _
  | cons s rest ih =>
    cases h with
    | skip _ h => exact ih h
    | star _ _ h => exact (extends_foldl_addThroughStar n s found _).trans (ih h)

/-- What is seen was there before, or is an export of another file that a star export
leads to. -/
theorem Sees.mem_cases {n : Node} {specifiers : List String} {found : List Export} {e : Export}
    (h : Sees g stars (.through n specifiers found) visited all visited') (he : e ∈ all) :
    e ∈ found ∨ ∃ s ∈ specifiers, ∃ target o, n.links.supplier? (isOf s) = some target ∧
      e = throughStar n s o := by
  induction specifiers generalizing found visited with
  | nil =>
    cases h with
    | done => exact .inl he
  | cons s rest ih =>
    cases h with
    | skip _ h =>
      rcases ih h with he | ⟨s', hs', more⟩
      exacts [.inl he, .inr ⟨s', List.mem_cons_of_mem _ hs', more⟩]
    | star some _ h =>
      rcases ih h with he | ⟨s', hs', more⟩
      · rcases mem_foldl_addThroughStar he with he | ⟨o, -, -, eq⟩
        exacts [.inl he, .inr ⟨s, List.mem_cons_self, _, o, some, eq⟩]
      · exact .inr ⟨s', List.mem_cons_of_mem _ hs', more⟩

/-- No file that is visited on the way exports the name itself as its default. -/
def PlainBetween (g : Graph) (visited visited' : List String) (m : String) : Prop :=
  ∀ x n, x ∈ visited' → x ∉ visited → g.node? x = some n →
    ∀ e ∈ n.exports, e.name = m → e.isDefault = false

/-- **What is seen**: a name is seen if it was there before or a file that is visited
on the way exports it itself, and it is never seen as a default. -/
theorem Sees.mem_names_iff {m : String} (h : Sees g stars t visited all visited')
    (plain : PlainBetween g visited visited' m)
    (before : ∀ e ∈ t.found, e.name = m → e.isDefault = false) :
    (m ∈ all.map Export.name ↔
        m ∈ t.found.map Export.name ∨ ∃ x, x ∈ visited' ∧ x ∉ visited ∧ Owns g x m) ∧
      ∀ e ∈ all, e.name = m → e.isDefault = false := by
  induction h with
  | seen | done =>
    refine ⟨⟨.inl, ?_⟩, before⟩
    rintro (there | ⟨x, hx, new, -⟩)
    exacts [there, absurd hx new]
  | @missing path visited _ none =>
    refine ⟨⟨by simp, ?_⟩, before⟩
    rintro (h | ⟨x, hx, new, n, some, -⟩)
    · exact h
    · obtain rfl := (List.mem_cons.1 hx).resolve_right new
      rw [none] at some
      cases some
  | @node path n visited all visited' fresh some h ih =>
    have inside : path ∈ visited' := h.subset List.mem_cons_self
    have plain' : PlainBetween g (path :: visited) visited' m := by
      intro x n hx new
      exact plain x n hx fun old => new (List.mem_cons_of_mem _ old)
    obtain ⟨names, flags⟩ := ih plain' (plain path n inside fresh some)
    refine ⟨names.trans ⟨?_, ?_⟩, flags⟩
    · rintro (own | ⟨x, hx, new, owns⟩)
      · exact .inr ⟨path, inside, fresh, n, some, own⟩
      · exact .inr ⟨x, hx, fun old => new (List.mem_cons_of_mem _ old), owns⟩
    · rintro (none | ⟨x, hx, new, owns⟩)
      · cases none
      · by_cases eq : x = path
        · subst eq
          obtain ⟨n', some', own⟩ := owns
          obtain rfl := Option.some.inj (some.symm.trans some')
          exact .inl own
        · exact .inr ⟨x, hx, by simp [eq, new], owns⟩
  | skip _ _ ih => exact ih plain before
  | @star n s rest found visited target more visited₁ all visited' _ h₁ h₂ ih₁ ih₂ =>
    have plain₁ : PlainBetween g visited visited₁ m :=
      fun x n hx new => plain x n (h₂.subset hx) new
    have plain₂ : PlainBetween g visited₁ visited' m :=
      fun x n hx new => plain x n hx fun old => new (h₁.subset old)
    obtain ⟨names₁, flags₁⟩ := ih₁ plain₁ (by simp [Task.found])
    -- what the first star export adds is no default, so the rest starts from plain records
    have before₂ : ∀ e ∈ more.foldl (addThroughStar n s) found,
        e.name = m → e.isDefault = false := by
      intro e he name
      rcases mem_foldl_addThroughStar he with he | ⟨o, -, -, rfl⟩
      exacts [before e he name, rfl]
    obtain ⟨names₂, flags₂⟩ := ih₂ plain₂ before₂
    refine ⟨names₂.trans ⟨?_, ?_⟩, flags₂⟩
    · rintro (there | ⟨x, hx, new, owns⟩)
      · rcases mem_names_foldl_addThroughStar.1 there with there | ⟨o, ho, rfl, -⟩
        · exact .inl there
        · rcases names₁.1 (List.mem_map.2 ⟨o, ho, rfl⟩) with none | ⟨x, hx, new, owns⟩
          · cases none
          · exact .inr ⟨x, h₂.subset hx, new, owns⟩
      · exact .inr ⟨x, hx, fun old => new (h₁.subset old), owns⟩
    · rintro (there | ⟨x, hx, new, owns⟩)
      · exact .inl (mem_names_foldl_addThroughStar.2 (.inl there))
      · -- the file was visited for the first star export, or else for one of the rest
        by_cases first : x ∈ visited₁
        · obtain ⟨o, ho, name⟩ := List.mem_map.1 (names₁.2 (.inr ⟨x, first, new, owns⟩))
          exact .inl (mem_names_foldl_addThroughStar.2 (.inr ⟨o, ho, name, flags₁ o ho name⟩))
        · exact .inr ⟨x, hx, first, owns⟩

end

/-! ### The bound on the depth is never met -/

/-- More files visited leave no more files to visit. -/
theorem unvisited_le {visited visited' : List String} (sub : visited ⊆ visited') :
    g.unvisited visited' ≤ g.unvisited visited := by
  refine (List.monotone_filter_right g.nodes ?_).length_le
  intro n hn
  simp only [Bool.not_eq_true', List.contains_eq_mem, decide_eq_false_iff_not] at hn ⊢
  exact fun old => hn (sub old)

/-- Some star exports are seen where every file that they lead to is. -/
theorem sees_foldl_addStar {depth : Nat}
    {visit : List String → String → List Export × List String}
    (hvisit : ∀ visited path, g.unvisited visited < depth →
      Sees g stars (.file path) visited (visit visited path).1 (visit visited path).2)
    (n : Node) (specifiers : List String) (found : List Export) (visited : List String)
    (enough : g.unvisited visited < depth) :
    Sees g stars (.through n specifiers found) visited
      (specifiers.foldl (addStar visit n) (found, visited)).1
      (specifiers.foldl (addStar visit n) (found, visited)).2 := by
  induction specifiers generalizing found visited with
  | nil => exact .done
  | cons s rest ih =>
    rw [List.foldl_cons]
    rcases e : n.links.supplier? (isOf s) with - | target
    · have skip : addStar visit n (found, visited) s = (found, visited) := by
        simp [addStar, e]
      rw [skip]
      exact .skip e (ih found visited enough)
    · have first := hvisit visited target enough
      have step : addStar visit n (found, visited) s =
          ((visit visited target).1.foldl (addThroughStar n s) found,
            (visit visited target).2) := by
        simp [addStar, e]
      rw [step]
      exact .star e first (ih _ _ (Nat.lt_of_le_of_lt (unvisited_le first.subset) enough))

/-- What is seen up to a depth is what is seen, if the depth is more than the number of
files that were not visited. -/
theorem sees_visibleUpTo (g : Graph) (stars : Stars) (depth : Nat) (visited : List String)
    (path : String) (enough : g.unvisited visited < depth) :
    Sees g stars (.file path) visited (visibleUpTo g stars depth visited path).1
      (visibleUpTo g stars depth visited path).2 := by
  induction depth generalizing visited path with
  | zero => exact absurd enough (Nat.not_lt_zero _)
  | succ depth ih =>
    unfold visibleUpTo
    by_cases seen : path ∈ visited
    · rw [if_pos (by simpa using seen)]
      exact .seen seen
    · rw [if_neg (by simpa using seen)]
      rcases e : g.node? path with - | n
      · exact .missing seen e
      · have fewer := g.unvisited_cons_lt visited path (has_of_node? e) (by simpa using seen)
        exact .node seen e (sees_foldl_addStar ih n _ _ _ (by omega))

/-- The exports of a file with those of its star exports are what is seen from it. -/
theorem sees_visibleExports (g : Graph) (stars : Stars) (path : String) :
    ∃ visited, Sees g stars (.file path) [] (visibleExports g stars path) visited := by
  have enough : g.unvisited [] < g.nodes.length + 1 :=
    Nat.lt_succ_of_le (List.length_filter_le _ _)
  exact ⟨_, sees_visibleUpTo g stars _ [] path enough⟩

end ModuleAtlas.Graph
