/-
ModuleAtlas/Proofs/StarNames.lean

The names that a file exports once its star exports are expanded.

Whatever the shape of the star exports, with files that are reached twice or that lead
back to where they were reached from, a file exports the names of all files that its
star exports reach (`expandStars_names`).  A file that is reached a second time adds
nothing there, but what it exports was already seen on the way to the same root.
-/
import ModuleAtlas.Proofs.StarVisit

namespace ModuleAtlas.Graph

variable {g : Graph} {stars : Stars} {path : String} {n : Node}

/-! ### Nodes of the expanded graph -/

/-- What is seen from a file of the graph: its exports, then those of its star exports. -/
theorem sees_through (node : g.node? path = some n) (stars : Stars) :
    ∃ visited, Sees g stars (.through n (starsOf stars path) n.exports) [path]
      (visibleExports g stars path) visited := by
  obtain ⟨visited, h⟩ := sees_visibleExports g stars path
  generalize visibleExports g stars path = all at h ⊢
  cases h with
  | seen old => cases old
  | missing _ none =>
    rw [none] at node
    cases node
  | node _ some h =>
    obtain rfl := Option.some.inj (some.symm.trans node)
    exact ⟨visited, h⟩

/-- A file without star exports is seen as it is. -/
theorem visibleExports_of_starsOf_eq_nil (node : g.node? path = some n)
    (none : starsOf stars path = []) : visibleExports g stars path = n.exports := by
  obtain ⟨visited, h⟩ := sees_through node stars
  rw [none] at h
  generalize visibleExports g stars path = all at h ⊢
  cases h with
  | done => rfl

theorem starsOf_eq_nil (h : ¬ (stars.any fun s => s.1 == path) = true) :
    starsOf stars path = [] := by
  have none : (stars.find? fun s => s.1 == path) = none := by
    rw [List.find?_eq_none]
    exact fun s hs eq => h (List.any_eq_true.2 ⟨s, hs, eq⟩)
  simp [starsOf, none]

/-- The nodes of the expanded graph are those of the graph with what is seen from them. -/
theorem node?_expandStars (node : g.node? path = some n) :
    (g.expandStars stars).node? path
      = some { n with exports := visibleExports g stars path } := by
  obtain rfl := path_of_node? node
  unfold expandStars
  rw [node?_map g (fun n => by split <;> rfl), node, Option.map_some]
  split
  · rfl
  · next none => rw [visibleExports_of_starsOf_eq_nil node (starsOf_eq_nil none)]

/-- The files of the expanded graph are files of the graph. -/
theorem exists_node?_of_expandStars {k : Node}
    (node : (g.expandStars stars).node? path = some k) :
    ∃ n, g.node? path = some n ∧ k = { n with exports := visibleExports g stars path } := by
  rcases e : g.node? path with - | n
  · unfold expandStars at node
    rw [node?_map g (fun n => by split <;> rfl), e] at node
    cases node
  · rw [node?_expandStars e] at node
    exact ⟨n, rfl, (Option.some.inj node).symm⟩

/-! ### Names -/

/-- The names that are seen from a file are those of the files that its star exports
reach. -/
theorem mem_names_visibleExports_iff {m : String} (node : g.node? path = some n)
    (plain : ∀ q k, StarReach g stars path q → g.node? q = some k →
      ∀ e ∈ k.exports, e.name = m → e.isDefault = false) :
    m ∈ (visibleExports g stars path).map Export.name ↔
      ∃ q, StarReach g stars path q ∧ Owns g q m := by
  obtain ⟨visited, h⟩ := sees_visibleExports g stars path
  -- nothing was visited before, so no way is barred
  have visits : ∀ x, x ∈ visited ↔ StarReach g stars path x := by
    intro x
    constructor
    · intro hx
      obtain ⟨r, rfl, way⟩ := h.mem_visited_iff.1 ⟨hx, List.not_mem_nil⟩
      exact way.starReach
    · intro reach
      refine (h.mem_visited_iff.2 ⟨path, rfl, List.not_mem_nil, ?_⟩).1
      exact Relation.ReflTransGen.mono (fun _ _ step => ⟨step, List.not_mem_nil⟩) _ _ reach
  have between : PlainBetween g [] visited m := fun x k hx _ => plain x k ((visits x).1 hx)
  rw [(h.mem_names_iff between (by simp [Task.found])).1]
  constructor
  · rintro (none | ⟨x, hx, -, owns⟩)
    · cases none
    · exact ⟨x, (visits x).1 hx, owns⟩
  · rintro ⟨x, reach, owns⟩
    exact .inr ⟨x, (visits x).2 reach, List.not_mem_nil, owns⟩

/-- **What star exports stand for.**  After the expansion a file exports what it exported
itself, as it was, and behind it re-exports under names that are distinct and not among
its own; apart from the default name, its names are those of all files of the graph
that star exports reach from it. -/
theorem expandStars_names (g : Graph) (stars : Stars)
    (flagged : ∀ k ∈ g.nodes, ∀ e ∈ k.exports, e.isDefault = true ↔ e.name = defaultName)
    {path : String} {n : Node} (node : g.node? path = some n) :
    ∃ added,
      (g.expandStars stars).node? path = some { n with exports := n.exports ++ added } ∧
      (∀ e ∈ added, e.isReexport = true ∧ e.isDefault = false) ∧
      (added.map Export.name).Nodup ∧
      (∀ e ∈ added, e.name ∉ n.exports.map Export.name) ∧
      ∀ m, m ≠ defaultName →
        (m ∈ (n.exports ++ added).map Export.name ↔
          ∃ q, StarReach g stars path q ∧ Owns g q m) := by
  obtain ⟨visited, h⟩ := sees_through node stars
  obtain ⟨added, eq, flags, nodup, free⟩ := h.extends
  refine ⟨added, ?_, flags, nodup, free, ?_⟩
  · rw [node?_expandStars node, eq]
  · intro m hm
    rw [← eq]
    refine mem_names_visibleExports_iff node ?_
    intro q k _ some e he name
    have mem : k ∈ g.nodes := List.mem_of_find?_eq_some some
    rw [Bool.eq_false_iff, Ne, flagged k mem e he, name]
    exact hm

/-- Two files that a third one names, with a fourth one behind both and a star export
back to the third. -/
def diamond : Graph where
  root := "/"
  nodes :=
    [{ path := "/top", relative := "top",
       links := (Links.addInternal {} "/left" { specifier := "./left" }).addInternal
         "/right" { specifier := "./right" },
       exports := [{ name := "own" }, { name := "default", isDefault := true }] },
     { path := "/left", relative := "left",
       links := Links.addInternal {} "/base" { specifier := "./base" },
       exports := [{ name := "own" }] },
     { path := "/right", relative := "right",
       links := (Links.addInternal {} "/base" { specifier := "./base" }).addInternal
         "/top" { specifier := "./top" } },
     { path := "/base", relative := "base",
       exports := [{ name := "x" }, { name := "default", isDefault := true }] }]

/-- The star exports of the files above. -/
def diamondStars : Stars :=
  [("/top", ["./left", "./right"]), ("/left", ["./base"]), ("/right", ["./top", "./base"])]

/-- The file that leads back exports the names of all four. -/
theorem expandStars_names_diamond :
    (∀ k ∈ diamond.nodes, ∀ e ∈ k.exports, e.isDefault = true ↔ e.name = defaultName) ∧
      ∃ n added, diamond.node? "/right" = some n ∧
        (diamond.expandStars diamondStars).node? "/right"
          = some { n with exports := n.exports ++ added } ∧
        ∀ m, m ≠ defaultName →
          (m ∈ (n.exports ++ added).map Export.name ↔
            ∃ q, StarReach diamond diamondStars "/right" q ∧ Owns diamond q m) := by
  have flagged : ∀ k ∈ diamond.nodes, ∀ e ∈ k.exports,
      e.isDefault = true ↔ e.name = defaultName := by decide
  refine ⟨flagged, ?_⟩
  have node : diamond.node? "/right" = some _ := rfl
  obtain ⟨added, eq, -, -, -, names⟩ := expandStars_names diamond diamondStars flagged node
  exact ⟨_, added, node, eq, names⟩

end ModuleAtlas.Graph
