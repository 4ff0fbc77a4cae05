/-
ModuleAtlas/Proofs/CycleReport.lean

What the cycles of a graph say about it.

Two results.  `acyclic_without_closing`: the cycles that are found meet every cycle
there is, since without their last imports the import graph has none left; so none is
found only where there is none.  `cycles_simple_not_rotated`: each of them is a simple
cycle, and none is found twice, not even from another start.

The second part of the latter rests on the order of the visits.  The files of a cycle
that was found are in that order, and only one rotation of a list can be.
-/
import Mathlib.Data.List.Rotate
import ModuleAtlas.Proofs.CycleWalk

namespace ModuleAtlas.Cycle

variable {g : Graph} {c d : List String}

/-! ### Cycles of the import graph -/

/-- A file on a cycle imports itself through the others. -/
theorem IsCycle.exists_transGen (h : IsCycle g c) :
    ∃ a, Relation.TransGen (Imports g) a a := by
  match c, h with
  | a :: b :: rest, h =>
    refine ⟨a, Relation.TransGen.head' (List.isChain_cons_cons.1 h.linked).1 ?_⟩
    refine List.relationReflTransGen_of_exists_isChain_cons rest h.linked.tail ?_
    have closed := h.closed
    rw [List.getLast?_cons_cons, List.getLast?_eq_some_getLast (List.cons_ne_nil b rest)] at closed
    exact (Option.some.inj closed).symm
  | [_], h => exact absurd h.long (by simp)
  | [], h => exact absurd h.long (by simp)

/-- A cycle is the way to its last file and the file where it started. -/
theorem IsCycle.eq_dropLast_append (h : IsCycle g c) :
    c = c.dropLast ++ c.dropLast.head?.toList := by
  have long := h.long
  have ne : c ≠ [] := by rintro rfl; simp at long
  have closed := h.closed
  rw [List.getLast?_eq_some_getLast ne] at closed
  have head : c.dropLast.head? = c.head? := by
    rw [List.head?_dropLast, if_pos long]
  rw [head, closed]
  exact (List.dropLast_append_getLast ne).symm

/-- Every cycle has a last import. -/
theorem IsCycle.exists_closing (h : IsCycle g c) : ∃ a b, [a, b] <:+ c := by
  rcases e : c.reverse with - | ⟨b, - | ⟨a, rest⟩⟩
  · have long := h.long
    rw [List.reverse_eq_nil_iff.1 e] at long
    simp at long
  · have long := h.long
    rw [List.reverse_eq_iff.1 e] at long
    simp at long
  · refine ⟨a, b, rest.reverse, ?_⟩
    rw [List.reverse_eq_iff.1 e]
    simp

/-! ### Rotations -/

/-- Two lists of the same elements, both in the order of a list that holds each
element once, are the same. -/
theorem eq_of_sublist_of_mem_iff {xs ys zs : List String} (nodup : zs.Nodup)
    (hx : xs.Sublist zs) (hy : ys.Sublist zs) (same : ∀ a, a ∈ xs ↔ a ∈ ys) : xs = ys := by
  induction zs generalizing xs ys with
  | nil => rw [List.eq_nil_of_sublist_nil hx, List.eq_nil_of_sublist_nil hy]
  | cons z zs ih =>
    obtain ⟨new, nodup⟩ := List.nodup_cons.1 nodup
    cases hx with
    | cons _ hx =>
      cases hy with
      | cons _ hy => exact ih nodup hx hy same
      | cons_cons _ hy => exact absurd (hx.subset ((same z).2 List.mem_cons_self)) new
    | @cons_cons xs' _ _ hx =>
      cases hy with
      | cons _ hy => exact absurd (hy.subset ((same z).1 List.mem_cons_self)) new
      | @cons_cons ys' _ _ hy =>
        congr 1
        refine ih nodup hx hy fun a => ?_
        have outside : a = z → a ∉ xs' ∧ a ∉ ys' := by
          rintro rfl
          exact ⟨fun ha => new (hx.subset ha), fun ha => new (hy.subset ha)⟩
        have same := same a
        simp only [List.mem_cons] at same
        grind

/-- Two cycles that were found are the same if one is a rotation of the other. -/
theorem Reported.eq_of_isRotated {s : State} (simple : Simple g s) (h : Reported g s)
    (hc : c ∈ s.found) (hd : d ∈ s.found) (rotated : c.dropLast ~r d.dropLast) : c = d := by
  obtain ⟨cycleC, subC⟩ := h.cycles c hc
  obtain ⟨cycleD, subD⟩ := h.cycles d hd
  -- a rotation has the same files, and the files of both are in the order of the visits
  have reversed : c.dropLast.reverse = d.dropLast.reverse := by
    refine eq_of_sublist_of_mem_iff simple.nodup subC subD fun a => ?_
    rw [List.mem_reverse, List.mem_reverse, rotated.mem_iff]
  rw [cycleC.eq_dropLast_append, cycleD.eq_dropLast_append, List.reverse_inj.1 reversed]

/-! ### The report -/

/-- Without the last imports of the cycles that are found, no file imports itself. -/
theorem not_transGen_open (g : Graph) (a : String) :
    ¬ Relation.TransGen (Open g (paths g)) a a := by
  intro loop
  obtain ⟨visited, done, run, all⟩ := run_paths g
  obtain ⟨-, ordered, -⟩ := run.invariants
  obtain ⟨b, ⟨⟨n, node, -⟩, -⟩, -⟩ := Relation.TransGen.head'_iff.1 loop
  -- the walk has visited every file and is inside of none, so it has left every file
  have left : a ∈ done :=
    (ordered.parted a (all a (Graph.has_of_node? node))).resolve_left List.not_mem_nil
  exact ordered.settled.not_transGen left loop

theorem isCycle_of_mem_paths (h : c ∈ paths g) : IsCycle g c := by
  obtain ⟨visited, done, run, -⟩ := run_paths g
  obtain ⟨-, -, reported⟩ := run.invariants
  exact (reported.cycles c h).1

/-- **Every cycle of imports is met**: without the last imports of the cycles that are
found, the import graph of the files has no cycle, and none is found exactly where
there is none to begin with. -/
theorem acyclic_without_closing (g : Graph) :
    (∀ a, ¬ Relation.TransGen (Open g (paths g)) a a) ∧
      (all g = [] ↔ ∀ a, ¬ Relation.TransGen (Imports g) a a) := by
  refine ⟨not_transGen_open g, ?_, ?_⟩
  · intro none a loop
    have none : paths g = [] := List.map_eq_nil_iff.1 none
    refine not_transGen_open g a (Relation.TransGen.mono ?_ a a loop)
    intro b c link
    refine ⟨link, ?_⟩
    rintro ⟨cycle, mem, -⟩
    rw [none] at mem
    cases mem
  · intro acyclic
    refine List.map_eq_nil_iff.2 (List.eq_nil_iff_forall_not_mem.2 fun c hc => ?_)
    obtain ⟨a, loop⟩ := (isCycle_of_mem_paths hc).exists_transGen
    exact acyclic a loop

/-- **Every cycle that is found is a simple cycle of imports**, given by the files as
seen from the root, and no two of them are the same up to rotation. -/
theorem cycles_simple_not_rotated (g : Graph) :
    all g = (paths g).map (List.map g.relative) ∧ (∀ c ∈ paths g, IsCycle g c) ∧
      (paths g).Pairwise fun c d => ¬ c.dropLast ~r d.dropLast := by
  obtain ⟨visited, done, run, -⟩ := run_paths g
  obtain ⟨simple, -, reported⟩ := run.invariants
  refine ⟨rfl, fun c hc => isCycle_of_mem_paths hc, ?_⟩
  refine reported.distinct.imp_of_mem ?_
  -- if they were rotations they would be the same, and so have the same last import
  intro c d hc hd distinct rotated
  obtain ⟨a, b, closing⟩ := (isCycle_of_mem_paths hc).exists_closing
  exact distinct a b closing (reported.eq_of_isRotated simple hc hd rotated ▸ closing)

end ModuleAtlas.Cycle
