/-
ModuleAtlas/Proofs/CycleWalk.lean

The walk for cycles, step by step.

`Cycle.walk` gives back the cycles that it still finds and the files visited in the
end.  Neither tells why a cycle cannot be missed: that takes the order in which the
walk leaves the files.  So the walk is stated here once more as a relation `Step`
between states which also keep the files that were left, and `run_paths` says that
`Cycle.paths` is what a run of these steps finds.  Three invariants are carried
along every run:

* `Simple` — the files that the walk is inside of are a simple path of imports, in
  the order in which they were visited;
* `Ordered` — an import of a file that was left closes a cycle that was found, or
  leads to a file that was left earlier;
* `Reported` — what was found are simple cycles, no two with the same last import.
-/
import Mathlib.Data.List.Chain
import Mathlib.Data.List.Nodup
import Mathlib.Logic.Relation
import ModuleAtlas.Analysis.Cycle

namespace ModuleAtlas.Cycle

variable {g : Graph}

/-! ### The import graph -/

/-- A file of the graph imports from a file of the graph. -/
def Imports (g : Graph) (a b : String) : Prop :=
  ∃ n, g.node? a = some n ∧ b ∈ n.links.targets ∧ g.has b = true

theorem mem_neighbours_iff {a b : String} : b ∈ neighbours g a ↔ Imports g a b := by
  unfold neighbours Imports
  rcases e : g.node? a with - | n
  · simp
  · simp [List.mem_filter]

theorem nodup_neighbours (g : Graph) (a : String) : (neighbours g a).Nodup := by
  unfold neighbours
  rcases e : g.node? a with - | n
  · exact List.nodup_nil
  · exact n.links.distinct.filter _

/-- A list of files that starts and ends with the same file, passes through no file
twice on the way, and follows the imports. -/
structure IsCycle (g : Graph) (c : List String) : Prop where
  long : 1 < c.length
  closed : c.head? = c.getLast?
  simple : c.dropLast.Nodup
  linked : c.IsChain (Imports g)

/-- The import is the last one of a cycle of the list. -/
def Closing (cs : List (List String)) (a b : String) : Prop := ∃ c ∈ cs, [a, b] <:+ c

/-- The import does not close a cycle of the list. -/
def Open (g : Graph) (cs : List (List String)) (a b : String) : Prop :=
  Imports g a b ∧ ¬ Closing cs a b

theorem Closing.append {cs : List (List String)} {a b : String} (h : Closing cs a b)
    (ds : List (List String)) : Closing (cs ++ ds) a b := by
  obtain ⟨c, mem, suffix⟩ := h
  exact ⟨c, List.mem_append_left ds mem, suffix⟩

/-! ### States and steps -/

/-- Where the walk is. -/
structure State where
  visited : List String := []
  stack : List Frame := []
  /-- The files that the walk has left, the last one first. -/
  done : List String := []
  found : List (List String) := []

/-- The files that the walk is inside of, the innermost first. -/
def State.inside (s : State) : List String := s.stack.map Frame.path

/-- What the walk can do next. -/
inductive Step (g : Graph) : State → State → Prop
  | start {visited done found path} :
      g.has path = true → path ∉ visited →
      Step g ⟨visited, [], done, found⟩
        ⟨path :: visited, [⟨path, neighbours g path⟩], done, found⟩
  | leave {visited path outer done found} :
      Step g ⟨visited, ⟨path, []⟩ :: outer, done, found⟩ ⟨visited, outer, path :: done, found⟩
  | close {visited path next left outer done found} :
      next ∈ path :: outer.map Frame.path →
      Step g ⟨visited, ⟨path, next :: left⟩ :: outer, done, found⟩
        ⟨visited, ⟨path, left⟩ :: outer, done, found ++ [wayBack (⟨path, left⟩ :: outer) next]⟩
  | enter {visited path next left outer done found} :
      g.has next = true → next ∉ visited →
      Step g ⟨visited, ⟨path, next :: left⟩ :: outer, done, found⟩
        ⟨next :: visited, ⟨next, neighbours g next⟩ :: ⟨path, left⟩ :: outer, done, found⟩
  | pass {visited path next left outer done found} :
      next ∉ path :: outer.map Frame.path → (g.has next = true → next ∈ visited) →
      Step g ⟨visited, ⟨path, next :: left⟩ :: outer, done, found⟩
        ⟨visited, ⟨path, left⟩ :: outer, done, found⟩

/-- Any number of steps. -/
abbrev Run (g : Graph) : State → State → Prop := Relation.ReflTransGen (Step g)

theorem Step.visited_subset {s t : State} (h : Step g s t) : s.visited ⊆ t.visited := by
  cases h with
  | start | enter => exact List.subset_cons_self _ _
  | leave | close | pass => exact List.Subset.refl _

theorem Run.visited_subset {s t : State} (h : Run g s t) : s.visited ⊆ t.visited := by
  induction h with
  | refl => exact List.Subset.refl _
  | tail _ step ih => exact List.Subset.trans ih step.visited_subset

/-! ### The walk is a run -/

/-- What the walk finds is found by steps that leave every file. -/
theorem run_walk (g : Graph) (visited : List String) (stack : List Frame) (done : List String)
    (found : List (List String)) :
    ∃ done', Run g ⟨visited, stack, done, found⟩
      ⟨(walk g visited stack).2, [], done', found ++ (walk g visited stack).1⟩ := by
  -- one case for each branch of the walk, and in each the step that it stands for
  fun_induction walk g visited stack generalizing done found with
  | case1 visited =>
    refine ⟨done, ?_⟩
    rw [List.append_nil]
  | case2 visited path outer ih =>
    obtain ⟨done', run⟩ := ih (path :: done) found
    exact ⟨done', .head .leave run⟩
  | case3 visited path next left outer inside more visited' eq ih =>
    obtain ⟨done', run⟩ := ih done (found ++ [wayBack (⟨path, left⟩ :: outer) next])
    have inside : next ∈ path :: outer.map Frame.path := by simpa using inside
    rw [eq, List.append_assoc] at run
    rw [if_pos (by simpa using inside), eq]
    exact ⟨done', .head (.close inside) run⟩
  | case4 visited path next left outer outside new ih =>
    obtain ⟨done', run⟩ := ih done found
    rw [if_neg (by simpa using outside), dif_pos new]
    exact ⟨done', .head (.enter new.2 (by simpa using new.1)) run⟩
  | case5 visited path next left outer outside old ih =>
    obtain ⟨done', run⟩ := ih done found
    have outside : next ∉ path :: outer.map Frame.path := by simpa using outside
    rw [if_neg (by simpa using outside), dif_neg old]
    refine ⟨done', .head (.pass outside fun has => ?_) run⟩
    by_contra new
    exact old ⟨by simpa using new, has⟩

/-- The files visited in the end from some starts, the last one first. -/
def visitedFrom (g : Graph) : List String → List String → List String
  | visited, [] => visited
  | visited, start :: rest =>
    if visited.contains start then visitedFrom g visited rest
    else visitedFrom g (walk g (start :: visited) [⟨start, neighbours g start⟩]).2 rest

/-- The files of a graph in the order in which the walk visits them. -/
def visits (g : Graph) : List String := (visitedFrom g [] g.paths).reverse

/-- What is found from some starts is found by steps that visit them all. -/
theorem run_pathsFrom (g : Graph) (visited starts : List String) (done : List String)
    (found : List (List String)) (has : ∀ p ∈ starts, g.has p = true) :
    ∃ done', Run g ⟨visited, [], done, found⟩
        ⟨visitedFrom g visited starts, [], done', found ++ pathsFrom g visited starts⟩ ∧
      ∀ p ∈ starts, p ∈ visitedFrom g visited starts := by
  induction starts generalizing visited done found with
  | nil =>
    refine ⟨done, ?_, by simp⟩
    rw [visitedFrom, pathsFrom, List.append_nil]
  | cons start rest ih =>
    have hasRest : ∀ p ∈ rest, g.has p = true := fun p hp => has p (List.mem_cons_of_mem _ hp)
    by_cases seen : start ∈ visited
    · obtain ⟨done', run, all⟩ := ih visited done found hasRest
      have skip : pathsFrom g visited (start :: rest) = pathsFrom g visited rest := by
        simp [pathsFrom, seen]
      have skip' : visitedFrom g visited (start :: rest) = visitedFrom g visited rest := by
        simp [visitedFrom, seen]
      rw [skip, skip']
      refine ⟨done', run, ?_⟩
      rintro p (_ | ⟨_, hp⟩)
      exacts [run.visited_subset seen, all p hp]
    · obtain ⟨done₁, run₁⟩ :=
        run_walk g (start :: visited) [⟨start, neighbours g start⟩] done found
      rcases e : walk g (start :: visited) [⟨start, neighbours g start⟩] with ⟨more, visited₁⟩
      rw [e] at run₁
      obtain ⟨done', run₂, all⟩ := ih visited₁ done₁ (found ++ more) hasRest
      have split : pathsFrom g visited (start :: rest) = more ++ pathsFrom g visited₁ rest := by
        simp [pathsFrom, seen, e]
      have split' : visitedFrom g visited (start :: rest) = visitedFrom g visited₁ rest := by
        simp [visitedFrom, seen, e]
      have first : Step g ⟨visited, [], done, found⟩ _ := .start (has start (by simp)) seen
      have whole := (Relation.ReflTransGen.head first run₁).trans run₂
      rw [List.append_assoc, ← split] at whole
      rw [split']
      refine ⟨done', whole, ?_⟩
      rintro p (_ | ⟨_, hp⟩)
      exacts [run₂.visited_subset (run₁.visited_subset (by simp)), all p hp]

/-- The cycles of a graph are found by steps that visit every file, in the order of the
visits. -/
theorem run_visits (g : Graph) :
    ∃ done, Run g {} ⟨(visits g).reverse, [], done, paths g⟩ ∧
      ∀ p, g.has p = true → p ∈ visits g := by
  have has : ∀ p ∈ g.paths, g.has p = true := by
    intro p hp
    obtain ⟨n, mem, rfl⟩ := List.mem_map.1 hp
    exact List.any_eq_true.2 ⟨n, mem, by simp⟩
  obtain ⟨done, run, all⟩ := run_pathsFrom g [] g.paths [] [] has
  refine ⟨done, ?_, fun p hp => List.mem_reverse.2 (all p ?_)⟩
  · unfold visits
    rw [List.reverse_reverse]
    exact run
  · obtain ⟨n, mem, eq⟩ := List.any_eq_true.1 hp
    exact List.mem_map.2 ⟨n, mem, by simpa using eq⟩

/-- The cycles of a graph are found by steps that visit every file. -/
theorem run_paths (g : Graph) :
    ∃ visited done, Run g {} ⟨visited, [], done, paths g⟩ ∧
      ∀ p, g.has p = true → p ∈ visited := by
  obtain ⟨done, run, all⟩ := run_visits g
  exact ⟨_, done, run, fun p hp => List.mem_reverse.2 (all p hp)⟩

/-! ### The way back -/

/-- The elements in front of one and that one are at the start of a list. -/
theorem takeWhile_concat_isPrefix {xs : List String} {x : String} (h : x ∈ xs) :
    xs.takeWhile (· != x) ++ [x] <+: xs := by
  induction xs with
  | nil => cases h
  | cons y ys ih =>
    by_cases eq : y = x
    · subst eq
      simp
    · have rest := ih ((List.mem_cons.1 h).resolve_left (Ne.symm eq))
      simpa [eq] using rest

/-- The way back goes out to a file and ends with the import of that file. -/
theorem wayBack_eq {path next : String} {outer : List Frame} (left : List String)
    (inside : next ∈ path :: outer.map Frame.path) :
    ∃ way, wayBack (⟨path, left⟩ :: outer) next = way.reverse ++ [path, next] ∧
      path :: way <+: path :: outer.map Frame.path ∧ (path :: way).getLast? = some next := by
  obtain ⟨rest, split⟩ := takeWhile_concat_isPrefix inside
  rcases e : (path :: outer.map Frame.path).takeWhile (· != next) ++ [next] with - | ⟨p, way⟩
  · simp at e
  · rw [e] at split
    obtain ⟨rfl, -⟩ := List.cons.inj split
    refine ⟨way, ?_, ⟨rest, split⟩, ?_⟩
    · calc wayBack (⟨p, left⟩ :: outer) next
          = ((p :: outer.map Frame.path).takeWhile (· != next) ++ [next]).reverse ++ [next] := by
            simp [wayBack]
        _ = way.reverse ++ [p, next] := by rw [e]; simp
    · rw [← e, List.getLast?_concat]

/-! ### Where the walk is inside of -/

/-- The walk is inside of a simple path of imports, in the order of its visits. -/
structure Simple (g : Graph) (s : State) : Prop where
  nodup : s.visited.Nodup
  inside : s.inside.Sublist s.visited
  linked : s.inside.IsChain fun a b => Imports g b a
  left : ∀ f ∈ s.stack, f.left <:+ neighbours g f.path

section

variable {visited left done done' : List String} {path next : String} {outer : List Frame}
variable {found found' : List (List String)}

/-- An import that is still to be followed is one of the graph. -/
theorem Simple.imports (h : Simple g ⟨visited, ⟨path, next :: left⟩ :: outer, done, found⟩) :
    Imports g path next :=
  mem_neighbours_iff.1 ((h.left _ List.mem_cons_self).subset List.mem_cons_self)

/-- No import is to be followed twice. -/
theorem Simple.next_notMem (h : Simple g ⟨visited, ⟨path, next :: left⟩ :: outer, done, found⟩) :
    next ∉ left := by
  have nodup := (nodup_neighbours g path).sublist (h.left _ List.mem_cons_self).sublist
  exact (List.nodup_cons.1 nodup).1

/-- The innermost file is inside of no file further out. -/
theorem Simple.path_notMem (h : Simple g ⟨visited, ⟨path, left⟩ :: outer, done, found⟩) :
    path ∉ outer.map Frame.path :=
  (List.nodup_cons.1 (h.nodup.sublist h.inside)).1

/-- The path does not change when an import was followed. -/
theorem Simple.advance (h : Simple g ⟨visited, ⟨path, next :: left⟩ :: outer, done, found⟩) :
    Simple g ⟨visited, ⟨path, left⟩ :: outer, done', found'⟩ := by
  refine ⟨h.nodup, h.inside, h.linked, ?_⟩
  rintro f (_ | ⟨_, hf⟩)
  · exact (List.suffix_cons next left).trans (h.left _ List.mem_cons_self)
  · exact h.left f (List.mem_cons_of_mem _ hf)

/-- The path grows by a file that was not visited. -/
theorem Simple.push (h : Simple g ⟨visited, ⟨path, left⟩ :: outer, done, found⟩)
    (new : next ∉ visited) (link : Imports g path next) :
    Simple g ⟨next :: visited, ⟨next, neighbours g next⟩ :: ⟨path, left⟩ :: outer, done, found⟩ := by
  refine ⟨List.nodup_cons.2 ⟨new, h.nodup⟩, h.inside.cons_cons next, ?_, ?_⟩
  · exact List.isChain_cons_cons.2 ⟨link, h.linked⟩
  · rintro f (_ | ⟨_, hf⟩)
    exacts [List.suffix_rfl, h.left f hf]

end

theorem simple_init : Simple g {} :=
  ⟨List.nodup_nil, List.Sublist.refl _, List.isChain_nil, by simp⟩

theorem Step.simple {s t : State} (h : Step g s t) (inv : Simple g s) : Simple g t := by
  cases h with
  | @start visited done found path has new =>
    refine ⟨List.nodup_cons.2 ⟨new, inv.nodup⟩, ?_, List.isChain_singleton _, ?_⟩
    · exact (List.nil_sublist visited).cons_cons path
    · simp [List.suffix_rfl]
  | leave =>
    refine ⟨inv.nodup, (List.sublist_cons_self _ _).trans inv.inside, inv.linked.tail, ?_⟩
    exact fun f hf => inv.left f (List.mem_cons_of_mem _ hf)
  | close | pass => exact inv.advance
  | enter has new => exact inv.advance.push new inv.imports

/-! ### The order in which files are left -/

/-- In a list of files, `r` leads from each one only to files behind it. -/
def Settled (r : String → String → Prop) : List String → Prop
  | [] => True
  | a :: rest => (∀ b, r a b → b ∈ rest) ∧ Settled r rest

theorem Settled.mono {r r' : String → String → Prop} (le : ∀ a b, r' a b → r a b)
    {xs : List String} (h : Settled r xs) : Settled r' xs := by
  induction xs with
  | nil => trivial
  | cons a rest ih => exact ⟨fun b hb => h.1 b (le a b hb), ih h.2⟩

/-- Nothing leads out of a settled list. -/
theorem Settled.closed {r : String → String → Prop} {xs : List String} (h : Settled r xs)
    {a b : String} (ha : a ∈ xs) (hab : Relation.ReflTransGen r a b) : b ∈ xs := by
  induction hab with
  | refl => exact ha
  | @tail b c _ hbc ih =>
    clear ha
    induction xs with
    | nil => cases ih
    | cons x rest ihx =>
      rcases List.mem_cons.1 ih with rfl | hb
      · exact List.mem_cons_of_mem _ (h.1 c hbc)
      · exact List.mem_cons_of_mem _ (ihx h.2 hb)

/-- Nothing leads from a file of a settled list back to it. -/
theorem Settled.not_transGen {r : String → String → Prop} {xs : List String}
    (h : Settled r xs) {a : String} (ha : a ∈ xs) : ¬ Relation.TransGen r a a := by
  induction xs with
  | nil => cases ha
  | cons x rest ih =>
    rcases List.mem_cons.1 ha with rfl | ha
    · -- the first step goes behind `a`, from where the rest of the way never comes back
      intro loop
      obtain ⟨b, hab, hba⟩ := Relation.TransGen.head'_iff.1 loop
      exact ih h.2 (h.2.closed (h.1 b hab) hba) loop
    · exact ih h.2 ha

/-- Every import of the file of a frame is still to be followed, closes a cycle that
was found, or leads to a file of `past` or of a frame further in. -/
def Followed (g : Graph) (found : List (List String)) (past : List String) : List Frame → Prop
  | [] => True
  | f :: outer =>
    (∀ b, Imports g f.path b → b ∈ f.left ∨ Closing found f.path b ∨ b ∈ past) ∧
      Followed g found (f.path :: past) outer

theorem Followed.mono {found found' : List (List String)} {past past' : List String}
    {stack : List Frame} (closing : ∀ a b, Closing found a b → Closing found' a b)
    (sub : past ⊆ past') (h : Followed g found past stack) : Followed g found' past' stack := by
  induction stack generalizing past past' with
  | nil => trivial
  | cons f outer ih =>
    refine ⟨fun b hb => ?_, ih (List.cons_subset_cons f.path sub) h.2⟩
    rcases h.1 b hb with hb | hb | hb
    · exact .inl hb
    · exact .inr (.inl (closing _ _ hb))
    · exact .inr (.inr (sub hb))

/-- The files that were left are in the order of the imports that close no cycle. -/
structure Ordered (g : Graph) (s : State) : Prop where
  parted : ∀ p ∈ s.visited, p ∈ s.inside ∨ p ∈ s.done
  followed : Followed g s.found s.done s.stack
  settled : Settled (Open g s.found) s.done

theorem ordered_init : Ordered g {} := ⟨by simp, trivial, trivial⟩

theorem Step.ordered {s t : State} (h : Step g s t) (simple : Simple g s) (inv : Ordered g s) :
    Ordered g t := by
  cases h with
  | @start visited done found path has new =>
    refine ⟨?_, ⟨fun b hb => .inl (mem_neighbours_iff.2 hb), trivial⟩, inv.settled⟩
    rintro p (_ | ⟨_, hp⟩)
    · exact .inl List.mem_cons_self
    · exact .inr ((inv.parted p hp).resolve_left List.not_mem_nil)
  | @leave visited path outer done found =>
    refine ⟨fun p hp => ?_, inv.followed.2, ?_, inv.settled⟩
    · rcases inv.parted p hp with inside | hp
      · rcases List.mem_cons.1 inside with rfl | hp
        exacts [.inr List.mem_cons_self, .inl hp]
      · exact .inr (List.mem_cons_of_mem _ hp)
    · -- all imports of `path` were followed, so an open one leads to a file that was left
      intro b hb
      rcases inv.followed.1 b hb.1 with left | closing | done
      exacts [absurd left List.not_mem_nil, absurd closing hb.2, done]
  | @close visited path next left outer done found inside =>
    obtain ⟨way, eq, -⟩ := wayBack_eq left inside
    have closes : Closing (found ++ [wayBack (⟨path, left⟩ :: outer) next]) path next :=
      ⟨_, List.mem_append_right _ List.mem_cons_self, eq ▸ List.suffix_append _ _⟩
    refine ⟨inv.parted, ⟨fun b hb => ?_, inv.followed.2.mono (fun _ _ h => h.append _)
      (List.Subset.refl _)⟩, inv.settled.mono fun a b h => ⟨h.1, fun c => h.2 (c.append _)⟩⟩
    rcases inv.followed.1 b hb with hb | hb | hb
    · rcases List.mem_cons.1 hb with rfl | hb
      exacts [.inr (.inl closes), .inl hb]
    · exact .inr (.inl (hb.append _))
    · exact .inr (.inr hb)
  | @enter visited path next left outer done found has new =>
    refine ⟨?_, ⟨fun b hb => .inl (mem_neighbours_iff.2 hb), fun b hb => ?_, ?_⟩, inv.settled⟩
    · rintro p (_ | ⟨_, hp⟩)
      · exact .inl List.mem_cons_self
      · exact (inv.parted p hp).imp_left (List.mem_cons_of_mem _)
    · rcases inv.followed.1 b hb with hb | hb | hb
      · rcases List.mem_cons.1 hb with rfl | hb
        exacts [.inr (.inr List.mem_cons_self), .inl hb]
      · exact .inr (.inl hb)
      · exact .inr (.inr (List.mem_cons_of_mem _ hb))
    · exact inv.followed.2.mono (fun _ _ h => h)
        (List.cons_subset_cons path (List.subset_cons_self next done))
  | @pass visited path next left outer done found outside old =>
    -- a file that was visited and that the walk is not inside of was left
    obtain ⟨-, -, -, has⟩ := simple.imports
    have hdone : next ∈ done := (inv.parted next (old has)).resolve_left outside
    refine ⟨inv.parted, ⟨fun b hb => ?_, inv.followed.2⟩, inv.settled⟩
    rcases inv.followed.1 b hb with hb | hb | hb
    · rcases List.mem_cons.1 hb with rfl | hb
      exacts [.inr (.inr hdone), .inl hb]
    · exact .inr (.inl hb)
    · exact .inr (.inr hb)

/-! ### The cycles that are found -/

/-- What was found are simple cycles in the order of the visits, and no two of them
end with the same import: an import that closed one is not followed again. -/
structure Reported (g : Graph) (s : State) : Prop where
  cycles : ∀ c ∈ s.found, IsCycle g c ∧ c.dropLast.reverse.Sublist s.visited
  used : ∀ a b, Closing s.found a b → a ∈ s.visited ∧ ∀ f ∈ s.stack, f.path = a → b ∉ f.left
  distinct : s.found.Pairwise fun c d => ∀ a b, [a, b] <:+ c → ¬ [a, b] <:+ d

theorem reported_init : Reported g {} :=
  ⟨by simp, by simp [Closing], List.Pairwise.nil⟩

/-- The way back from the innermost file is a cycle. -/
theorem Simple.isCycle_wayBack {visited left done : List String} {path next : String}
    {outer : List Frame} {found : List (List String)}
    (h : Simple g ⟨visited, ⟨path, next :: left⟩ :: outer, done, found⟩)
    (inside : next ∈ path :: outer.map Frame.path) :
    IsCycle g (wayBack (⟨path, left⟩ :: outer) next) ∧
      (wayBack (⟨path, left⟩ :: outer) next).dropLast.reverse.Sublist visited := by
  obtain ⟨way, eq, ⟨rest, split⟩, last⟩ := wayBack_eq left inside
  have inner : (path :: way ++ rest).Sublist visited := split ▸ h.inside
  have sub : (path :: way).Sublist visited := (List.sublist_append_left _ rest).trans inner
  have linked : (path :: way ++ rest).IsChain fun a b => Imports g b a := split ▸ h.linked
  have eq' : wayBack (⟨path, left⟩ :: outer) next = (path :: way).reverse ++ [next] := by
    rw [eq, List.reverse_cons, List.append_assoc]; rfl
  have dropLast : (wayBack (⟨path, left⟩ :: outer) next).dropLast = (path :: way).reverse := by
    rw [eq', List.dropLast_concat]
  refine ⟨⟨?_, ?_, ?_, ?_⟩, ?_⟩
  · rw [eq]; simp
  · rw [eq', List.getLast?_concat, List.head?_append, List.head?_reverse, last]; rfl
  · rw [dropLast]
    exact List.nodup_reverse.2 (h.nodup.sublist sub)
  · rw [eq', List.isChain_append]
    refine ⟨List.isChain_reverse.2 linked.left_of_append, List.isChain_singleton _, ?_⟩
    intro a ha b hb
    obtain rfl : path = a := by simpa using ha
    obtain rfl : next = b := by simpa using hb
    exact h.imports
  · rw [dropLast, List.reverse_reverse]
    exact sub

/-- An import that closed a cycle is not to be followed after another one was. -/
theorem Reported.notMem_left {visited left done : List String} {path next a b : String}
    {outer : List Frame} {found : List (List String)}
    (h : Reported g ⟨visited, ⟨path, next :: left⟩ :: outer, done, found⟩)
    (closing : Closing found a b) :
    ∀ f ∈ ⟨path, left⟩ :: outer, f.path = a → b ∉ f.left := by
  rintro f (_ | ⟨_, hf⟩) eq
  · exact fun hb => (h.used a b closing).2 _ List.mem_cons_self eq (List.mem_cons_of_mem _ hb)
  · exact (h.used a b closing).2 f (List.mem_cons_of_mem _ hf) eq

theorem Step.reported {s t : State} (h : Step g s t) (simple : Simple g s)
    (inv : Reported g s) : Reported g t := by
  cases h with
  | @start visited done found path has new =>
    refine ⟨fun c hc => ⟨(inv.cycles c hc).1, (inv.cycles c hc).2.cons path⟩, ?_, inv.distinct⟩
    intro a b hab
    refine ⟨List.mem_cons_of_mem _ (inv.used a b hab).1, ?_⟩
    rintro f (_ | ⟨_, hf⟩) rfl
    · exact absurd (inv.used _ b hab).1 new
    · cases hf
  | leave =>
    refine ⟨inv.cycles, fun a b hab => ⟨(inv.used a b hab).1, ?_⟩, inv.distinct⟩
    exact fun f hf => (inv.used a b hab).2 f (List.mem_cons_of_mem _ hf)
  | @close visited path next left outer done found inside =>
    obtain ⟨way, eq, -⟩ := wayBack_eq left inside
    -- the new cycle ends with the import that was just taken from the frame
    have closes : ∀ a b, [a, b] <:+ wayBack (⟨path, left⟩ :: outer) next →
        a = path ∧ b = next := by
      rintro a b ⟨pre, split⟩
      rw [eq] at split
      simpa using (List.append_inj' split rfl).2
    refine ⟨?_, ?_, ?_⟩
    · intro c hc
      rcases List.mem_append.1 hc with hc | hc
      · exact inv.cycles c hc
      · obtain rfl := List.mem_singleton.1 hc
        exact simple.isCycle_wayBack inside
    · -- the frame that gave the import has it no more, and no other frame is of that file
      rintro a b ⟨c, hc, suffix⟩
      rcases List.mem_append.1 hc with hc | hc
      · refine ⟨(inv.used a b ⟨c, hc, suffix⟩).1, ?_⟩
        exact inv.notMem_left ⟨c, hc, suffix⟩
      · obtain rfl := List.mem_singleton.1 hc
        obtain ⟨rfl, rfl⟩ := closes a b suffix
        refine ⟨simple.inside.subset List.mem_cons_self, ?_⟩
        rintro f (_ | ⟨_, hf⟩) eq
        · exact simple.next_notMem
        · exact absurd (List.mem_map.2 ⟨f, hf, eq⟩) simple.path_notMem
    · refine List.pairwise_append.2 ⟨inv.distinct, List.pairwise_singleton _ _, ?_⟩
      rintro c hc d hd a b hab hab'
      obtain rfl := List.mem_singleton.1 hd
      obtain ⟨rfl, rfl⟩ := closes a b hab'
      exact (inv.used _ _ ⟨c, hc, hab⟩).2 _ List.mem_cons_self rfl List.mem_cons_self
  | @enter visited path next left outer done found has new =>
    refine ⟨fun c hc => ⟨(inv.cycles c hc).1, (inv.cycles c hc).2.cons next⟩, ?_, inv.distinct⟩
    intro a b hab
    refine ⟨List.mem_cons_of_mem _ (inv.used a b hab).1, ?_⟩
    rintro f (_ | ⟨_, hf⟩) rfl
    · -- only imports of visited files close a cycle, and this one is new
      exact absurd (inv.used _ b hab).1 new
    · exact inv.notMem_left hab f hf rfl
  | pass =>
    refine ⟨inv.cycles, fun a b hab => ⟨(inv.used a b hab).1, ?_⟩, inv.distinct⟩
    exact inv.notMem_left hab

/-! ### Whole runs -/

/-- Every run from the beginning keeps the three invariants. -/
theorem Run.invariants {s : State} (run : Run g {} s) :
    Simple g s ∧ Ordered g s ∧ Reported g s := by
  induction run with
  | refl => exact ⟨simple_init, ordered_init, reported_init⟩
  | tail _ step ih =>
    obtain ⟨simple, ordered, reported⟩ := ih
    exact ⟨step.simple simple, step.ordered simple ordered, step.reported simple reported⟩

end ModuleAtlas.Cycle
