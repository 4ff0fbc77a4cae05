/-
ModuleAtlas/Graph/Unvisited.lean

How many files of a graph a walk has not visited yet.  A walk that visits a file of
the graph for the first time leaves fewer of them, so it ends.
-/
import ModuleAtlas.Graph.Node

namespace ModuleAtlas.Graph

/-- How many nodes were not visited. -/
def unvisited (g : Graph) (visited : List String) : Nat :=
  (g.nodes.filter fun n => !visited.contains n.path).length

/-- A list of which fewer elements are kept is shorter. -/
theorem length_filter_lt {α : Type} (p q : α → Bool) (xs : List α)
    (le : ∀ x, q x = true → p x = true) (x : α) (mem : x ∈ xs) (hp : p x = true)
    (hq : q x = false) : (xs.filter q).length < (xs.filter p).length := by
  induction xs with
  | nil => simp at mem
  | cons y ys ih =>
    have sub : (ys.filter q).length ≤ (ys.filter p).length := by
      clear ih mem
      induction ys with
      | nil => simp
      | cons z zs ihz =>
        by_cases hz : q z = true
        · simp [hz, le z hz]; exact ihz
        · by_cases hz' : p z = true
          · simp [hz, hz']; omega
          · simp [hz, hz']; exact ihz
    rcases List.mem_cons.1 mem with rfl | mem
    · simp [hp, hq]; omega
    · have := ih mem
      by_cases hy : q y = true
      · simp [hy, le y hy]; exact this
      · by_cases hy' : p y = true
        · simp [hy, hy']; omega
        · simp [hy, hy']; exact this

/-- Visiting a file of the graph for the first time leaves fewer to visit. -/
theorem unvisited_cons_lt (g : Graph) (visited : List String) (path : String)
    (h : g.has path = true) (new : visited.contains path = false) :
    g.unvisited (path :: visited) < g.unvisited visited := by
  obtain ⟨n, mem, eq⟩ := List.any_eq_true.1 h
  have eq : n.path = path := by simpa using eq
  refine length_filter_lt _ _ g.nodes ?_ n mem ?_ ?_
  · intro x hx
    simp only [List.contains_cons, Bool.not_or, Bool.and_eq_true] at hx
    exact hx.2
  · rw [eq, new]; rfl
  · simp [eq]

/-- The path of a node that was found is one of the graph. -/
theorem has_of_node? {g : Graph} {path : String} {n : Node} (h : g.node? path = some n) :
    g.has path = true := by
  have mem := List.mem_of_find?_eq_some h
  have eq := List.find?_some h
  exact List.any_eq_true.2 ⟨n, mem, eq⟩

/-- A path of the graph is that of a node that can be found. -/
theorem exists_node?_of_has {g : Graph} {path : String} (h : g.has path = true) :
    ∃ n, g.node? path = some n := by
  obtain ⟨n, mem, here⟩ := List.any_eq_true.1 h
  rw [← Option.isSome_iff_exists]
  exact List.find?_isSome.2 ⟨n, mem, here⟩

theorem has_of_mem {g : Graph} {n : Node} (h : n ∈ g.nodes) : g.has n.path = true :=
  List.any_eq_true.2 ⟨n, h, beq_self_eq_true n.path⟩

end ModuleAtlas.Graph
