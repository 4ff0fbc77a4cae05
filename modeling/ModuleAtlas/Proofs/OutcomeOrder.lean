/-
ModuleAtlas/Proofs/OutcomeOrder.lean

Nothing in a graph tells in which order its files were done.

A graph is put together from what came of the files, and from the paths of its entries.
It takes the nodes in the order of the files, looks star exports up by the file they are
in, and asks of entries only whether a file is one of them.  So outcomes in another order,
or entries in another order and more than once, give the same graph (`assemble_eq`).
-/
import Mathlib.Data.List.Basic
import ModuleAtlas.Proofs.Linking

namespace ModuleAtlas

namespace Graph

variable {g : Graph} {stars stars' : Stars}

/-! ### Star exports, looked up by file -/

/-- The same files have the same star exports. -/
def SameStars (stars stars' : Stars) : Prop :=
  ∀ path, (stars.find? fun s => s.1 == path) = stars'.find? fun s => s.1 == path

theorem SameStars.starsOf (same : SameStars stars stars') : starsOf stars = starsOf stars' := by
  funext path
  unfold Graph.starsOf
  rw [same path]

theorem SameStars.visibleUpTo (same : SameStars stars stars') (depth : Nat) :
    visibleUpTo g stars depth = visibleUpTo g stars' depth := by
  induction depth with
  | zero => rfl
  | succ depth ih =>
    funext visited path
    simp only [Graph.visibleUpTo, ih, same.starsOf]

theorem SameStars.expandStars (same : SameStars stars stars') :
    g.expandStars stars = g.expandStars stars' := by
  have listed : ∀ path, (stars.any fun s => s.1 == path) = stars'.any fun s => s.1 == path := by
    intro path
    rw [Bool.eq_iff_iff, List.any_eq_true, List.any_eq_true, ← List.find?_isSome,
      ← List.find?_isSome, same path]
  unfold Graph.expandStars visibleExports
  simp only [listed, same.visibleUpTo]

/-! ### Entries, asked for by file -/

theorem assignRoles_congr {es es' : List String} (same : ∀ p, p ∈ es ↔ p ∈ es') :
    g.assignRoles es = g.assignRoles es' := by
  have contains : ∀ p, es.contains p = es'.contains p := by
    intro p
    rw [Bool.eq_iff_iff, List.contains_iff_mem, List.contains_iff_mem, same p]
  unfold assignRoles
  simp only [contains]

theorem mem_entryFiles {extensions entries : List String} {p : String} :
    p ∈ g.entryFiles extensions entries ↔ ∃ e ∈ entries, g.entryFile? extensions e = some p := by
  unfold entryFiles
  rw [mem_foldl_insertNew, List.mem_filterMap]
  simp

/-! ### Paths -/

theorem paths_map {f : Node → Node} (keeps : ∀ n, (f n).path = n.path) :
    (g.map f).paths = g.paths := by
  show (g.nodes.map f).map Node.path = g.nodes.map Node.path
  rw [List.map_map]
  exact List.map_congr_left fun n _ => keeps n

theorem paths_wire : g.wire.paths = g.paths := paths_map fun _ => rfl

theorem paths_assignRoles {es : List String} : (g.assignRoles es).paths = g.paths :=
  paths_map fun _ => rfl

theorem paths_expandStars : (g.expandStars stars).paths = g.paths :=
  paths_map fun n => by split <;> rfl

end Graph

namespace Builder

variable {t : FileTree} {b : Builder} {files : List String} {os : List Outcome} {path : String}

/-! ### Outcomes, looked up by file -/

/-- What is there is what comes of its file. -/
def Right (b : Builder) (t : FileTree) (os : List Outcome) : Prop :=
  ∀ o ∈ os, o = b.outcomeOf t o.path

theorem right_map_outcomeOf (b : Builder) (t : FileTree) (files : List String) :
    Right b t (files.map (b.outcomeOf t)) := by
  intro o ho
  obtain ⟨path, -, rfl⟩ := List.mem_map.1 ho
  rfl

theorem map_path_map_outcomeOf (b : Builder) (t : FileTree) (files : List String) :
    (files.map (b.outcomeOf t)).map Outcome.path = files := by
  rw [List.map_map]
  exact List.map_id files

theorem Right.find? (right : Right b t os) (done : path ∈ os.map Outcome.path) :
    (os.find? fun o => o.path == path) = some (b.outcomeOf t path) := by
  rcases found : os.find? fun o => o.path == path with - | o
  · obtain ⟨o, ho, rfl⟩ := List.mem_map.1 done
    have := List.find?_eq_none.1 found o ho
    simp at this
  · have eq : o.path = path := by simpa using List.find?_some found
    have o_eq := right o (List.mem_of_find?_eq_some found)
    rw [eq] at o_eq
    rw [found, o_eq]

/-- The nodes are those that come of the files, each for itself. -/
theorem Right.nodesInOrder (right : Right b t os) (done : ∀ p ∈ files, p ∈ os.map Outcome.path) :
    nodesInOrder files os = files.filterMap fun p => (b.outcomeOf t p).node? := by
  unfold Builder.nodesInOrder
  refine List.filterMap_congr fun p hp => ?_
  rw [right.find? (done p hp), Option.bind_some]

theorem path_of_stars? {o : Outcome} {s : String × List String} (h : o.stars? = some s) :
    s.1 = o.path := by
  unfold Outcome.stars? at h
  split at h
  · obtain rfl := Option.some.inj h
    rfl
  · cases h

/-- The star exports of a file are those that come of it. -/
theorem Right.find?_starsOf (right : Right b t os) :
    ((starsOf os).find? fun s => s.1 == path) =
      if path ∈ os.map Outcome.path then (b.outcomeOf t path).stars? else none := by
  unfold starsOf
  induction os with
  | nil => rfl
  | cons o os ih =>
    have here : o = b.outcomeOf t o.path := right o List.mem_cons_self
    have ih := ih fun o ho => right o (List.mem_cons_of_mem _ ho)
    rw [List.filterMap_cons]
    by_cases same : o.path = path
    · -- where the file itself is first, it has star exports or nothing behind it has any
      rw [if_pos (by simp [same]), ← same, ← here]
      rcases e : o.stars? with - | s
      · simp only
        rw [same, ih]
        split
        · rw [← same, ← here, e]
        · rfl
      · simp [path_of_stars? e]
    · have mem : path ∈ (o :: os).map Outcome.path ↔ path ∈ os.map Outcome.path := by
        simp [Ne.symm same]
      simp only [mem, ← ih]
      rcases e : o.stars? with - | s
      · rfl
      · have other : (s.1 == path) = false := by simp [path_of_stars? e, same]
        simp only [List.find?_cons, other]

/-! ### Graphs -/

/-- **A graph does not tell the order of its files and entries.** -/
theorem assemble_eq {given entries : List String} (right : Right b t os)
    (done : ∀ p, p ∈ os.map Outcome.path ↔ p ∈ files) (same : ∀ e, e ∈ given ↔ e ∈ entries) :
    b.assemble given files os = b.assemble entries files (files.map (b.outcomeOf t)) := by
  have nodes : nodesInOrder files os = nodesInOrder files (files.map (b.outcomeOf t)) := by
    rw [right.nodesInOrder fun p hp => (done p).2 hp,
      (right_map_outcomeOf b t files).nodesInOrder fun p hp => by rwa [map_path_map_outcomeOf]]
  have stars : Graph.SameStars (starsOf os) (starsOf (files.map (b.outcomeOf t))) := by
    intro path
    rw [right.find?_starsOf, (right_map_outcomeOf b t files).find?_starsOf, map_path_map_outcomeOf]
    simp only [done path]
  unfold assemble
  dsimp only
  rw [nodes, stars.expandStars]
  refine Graph.assignRoles_congr fun p => ?_
  rw [Graph.mem_entryFiles, Graph.mem_entryFiles]
  simp only [same]

/-- The graph of a build is put together from what comes of each file. -/
theorem build_eq (b : Builder) (t : FileTree) (entries : List String) :
    (b.build t entries).1 =
        b.assemble entries (Discovery.files t b.search)
          ((Discovery.files t b.search).map (b.outcomeOf t)) ∧
      (b.build t entries).2.1 =
        warningsOf b.root ((Discovery.files t b.search).map (b.outcomeOf t)) := by
  obtain ⟨all, agrees⟩ := outcomes_spec b t (Discovery.files t b.search)
  rcases e : outcomes t b (Discovery.files t b.search) with ⟨os, b'⟩
  rw [e] at all agrees
  have whole : b.build t entries =
      (b'.assemble entries (Discovery.files t b.search) os, warningsOf b'.root os, b') := by
    simp only [build, e]
  rw [whole, ← all]
  unfold assemble
  rw [agrees.root, agrees.options]
  exact ⟨rfl, rfl⟩

theorem node?_outcomeOf (b : Builder) (t : FileTree) (path : String) :
    (b.outcomeOf t path).node? = (Source.record t path).toOption.map (b.nodeOf t path) := by
  unfold Outcome.node? outcomeOf
  cases Source.record t path <;> rfl

theorem paths_assemble_eq (b : Builder) (entries files : List String) (os : List Outcome) :
    (b.assemble entries files os).paths = (nodesInOrder files os).map Node.path := by
  unfold assemble
  dsimp only
  rw [Graph.paths_assignRoles, Graph.paths_expandStars, Graph.paths_wire]
  rfl

/-- The files of a graph are those that have a record, in the order of the files. -/
theorem paths_assemble (entries : List String) (right : Right b t os)
    (done : ∀ p ∈ files, p ∈ os.map Outcome.path) :
    (b.assemble entries files os).paths = files.filter fun p => (Source.record t p).isOk := by
  rw [paths_assemble_eq, right.nodesInOrder done]
  clear done
  induction files with
  | nil => rfl
  | cons p files ih =>
    rw [List.filterMap_cons, node?_outcomeOf, List.filter_cons]
    cases Source.record t p with
    | error e => exact ih
    | ok r => exact congrArg (p :: ·) ih

end Builder

end ModuleAtlas
