/-
ModuleAtlas/Proofs/MachineLimits.lean

What a machine refuses while a project is analysed.

A path is too long as a whole, or one of its names is too long and the path gets as far as the
folder in which that name has to be looked up (`FileTree.TooLong`).  Four walks keep a call open for
each step down: the search goes down folders (`Discovery.Nests`), what a source declares may be
declared around something else, and exports are followed from file to file along star exports and
along re-exports (`Builder.TooDeep`).

Both are what the analysis checks (`isTooLong_iff`, `overflows_iff`).  A call of the last two walks
stands for a file of its own, so they need a project with as many source files as calls may be open
(`TooDeep.cases`).
-/
import Mathlib.Data.List.Chain
import Mathlib.Data.List.GetD
import Mathlib.Data.List.Perm.Subperm
import ModuleAtlas.Analysis.Project
import ModuleAtlas.Proofs.OutcomeOrder
import ModuleAtlas.Proofs.StarVisit

namespace ModuleAtlas

/-! ### Paths that are too long -/

namespace FileTree

variable {limits : Limits} {t : FileTree}

/-- The segment is a name that is too long to be looked up. -/
def LongName (limits : Limits) (part : List Char) : Prop :=
  part ≠ [] ∧ part ≠ Path.here ∧ part ≠ Path.back ∧ limits.name < byteLength part

/-- The segments lead to a folder in which a name has to be looked up that is too long. -/
def MeetsLongName (limits : Limits) (t : FileTree) (parts : List (List Char)) : Prop :=
  ∃ before part after entries, parts = before ++ part :: after ∧
    follow [] t before = .ok (.folder entries) ∧ LongName limits part

/-- The path holds no null character, and it has too many bytes or comes to a name that has. -/
def TooLong (limits : Limits) (t : FileTree) (path : String) : Prop :=
  '\x00' ∉ path.toList ∧ (limits.path < byteLength path.toList ∨
    MeetsLongName limits t (Path.segments path.toList))

theorem isLongName_iff {part : List Char} :
    isLongName limits part = true ↔ LongName limits part := by
  unfold isLongName LongName
  simp only [Bool.and_eq_true, decide_eq_true_eq, and_assoc]

theorem leadsToFolder_iff {parts : List (List Char)} :
    t.leadsToFolder parts = true ↔ ∃ entries, follow [] t parts = .ok (.folder entries) := by
  unfold leadsToFolder
  cases follow [] t parts with
  | error lost => simp
  | ok found => cases found <;> simp [isFile]

theorem meetsLongName_iff {parts : List (List Char)} :
    meetsLongName limits t parts = true ↔ MeetsLongName limits t parts := by
  unfold meetsLongName MeetsLongName
  simp only [List.any_eq_true, List.mem_range, Bool.and_eq_true, isLongName_iff, leadsToFolder_iff]
  constructor
  · rintro ⟨k, hk, long, entries, leads⟩
    rw [List.getD_eq_getElem _ _ hk] at long
    refine ⟨parts.take k, parts[k], parts.drop (k + 1), entries, ?_, leads, long⟩
    rw [List.getElem_cons_drop, List.take_append_drop]
  · rintro ⟨before, part, after, entries, rfl, leads, long⟩
    refine ⟨before.length, by simp, ?_, entries, ?_⟩
    · simpa using long
    · simpa using leads

theorem isTooLong_iff {path : String} : t.isTooLong limits path = true ↔ TooLong limits t path := by
  unfold isTooLong TooLong
  rw [← meetsLongName_iff]
  simp

theorem isTooLong_eq_false_iff {path : String} :
    t.isTooLong limits path = false ↔ ¬ TooLong limits t path := by
  rw [← isTooLong_iff, Bool.not_eq_true]

end FileTree

/-! ### Folders inside folders -/

namespace Discovery

/-- So many folders are in each other, from the top of the tree down, and none but the first has a
name that is left out. -/
inductive Nests : FileTree → Nat → Prop
  | top (entries : List (String × FileTree)) : Nests (.folder entries) 1
  | inside {entries : List (String × FileTree)} {name : String} {t : FileTree} {k : Nat}
      (mem : (name, t) ∈ entries) (counts : name ∉ ignored) (inner : Nests t k) :
      Nests (.folder entries) (k + 1)

theorem depthOf_le_depthIn {e : String × FileTree} {entries : List (String × FileTree)}
    (h : e ∈ entries) : depthOf e ≤ depthIn entries := by
  induction entries with
  | nil => cases h
  | cons first rest ih =>
    rw [depthIn]
    rcases List.mem_cons.1 h with rfl | h
    · exact Nat.le_max_left _ _
    · exact Nat.le_trans (ih h) (Nat.le_max_right _ _)

theorem depthOf_of_counts {name : String} (counts : name ∉ ignored) (t : FileTree) :
    depthOf (name, t) = depthBelow t := by
  rw [depthOf]
  exact if_neg (by simpa using counts)

theorem Nests.le_depthBelow {t : FileTree} {k : Nat} (h : Nests t k) : k ≤ depthBelow t := by
  induction h with
  | top entries =>
    rw [depthBelow]
    exact Nat.le_add_right 1 _
  | @inside entries name t k mem counts inner ih =>
    have within : depthBelow t ≤ depthIn entries :=
      depthOf_of_counts counts t ▸ depthOf_le_depthIn mem
    rw [depthBelow]
    omega

mutual

theorem nests_of_lt : (t : FileTree) → {k : Nat} → k < depthBelow t → Nests t (k + 1)
  | .file _, k, h => by simp [depthBelow] at h
  | .folder entries, 0, _ => .top entries
  | .folder entries, k + 1, h => by
    obtain ⟨name, t, mem, counts, inner⟩ := nests_of_lt_depthIn entries (k := k) (by
      rw [depthBelow] at h
      omega)
    exact .inside mem counts inner

theorem nests_of_lt_depthIn : (entries : List (String × FileTree)) → {k : Nat} →
    k < depthIn entries → ∃ name t, (name, t) ∈ entries ∧ name ∉ ignored ∧ Nests t (k + 1)
  | [], k, h => by simp [depthIn] at h
  | (name, t) :: rest, k, h => by
    by_cases first : k < depthOf (name, t)
    · have counts : name ∉ ignored := by
        intro left
        simp [depthOf, left] at first
      rw [depthOf_of_counts counts] at first
      exact ⟨name, t, List.mem_cons_self, counts, nests_of_lt t first⟩
    · have later : k < depthIn rest := by
        rw [depthIn] at h
        omega
      obtain ⟨name', t', mem, counts, inner⟩ := nests_of_lt_depthIn rest later
      exact ⟨name', t', List.mem_cons_of_mem _ mem, counts, inner⟩

end

theorem lt_depth_iff {t : FileTree} {s : Search} {k : Nat} :
    k < depth t s ↔ ∃ tree, t.find? s.root = some tree ∧ Nests tree (k + 1) := by
  unfold depth
  cases t.find? s.root with
  | none => simp
  | some tree =>
    constructor
    · intro h
      exact ⟨tree, rfl, nests_of_lt tree h⟩
    · rintro ⟨tree', found, h⟩
      cases found
      exact h.le_depthBelow

end Discovery

/-! ### Star exports -/

namespace Graph

variable {g : Graph} {stars : Stars}

theorem mem_starTargets_iff {n : Node} {path target : String} (node : g.node? path = some n) :
    target ∈ starTargets stars n ↔ StarTo g stars path target := by
  unfold starTargets StarTo
  rw [path_of_node? node, List.mem_filterMap]
  constructor
  · rintro ⟨s, hs, leads⟩
    exact ⟨n, s, node, hs, leads⟩
  · rintro ⟨n', s, node', hs, leads⟩
    obtain rfl := Option.some.inj (node.symm.trans node')
    exact ⟨s, hs, leads⟩

section

variable {visit : List String → String → Option (List String)} {visited visited' : List String}

/-- Some star exports are followed as the expansion follows them, where every file that they name
is. -/
theorem sees_of_foldlM
    (sees : ∀ {visited path visited'}, visit visited path = some visited' →
      ∃ all, Sees g stars (.file path) visited all visited')
    {n : Node} {specifiers : List String} (found : List Export)
    (h : (specifiers.filterMap fun s => n.links.supplier? (isOf s)).foldlM visit visited =
      some visited') :
    ∃ all, Sees g stars (.through n specifiers found) visited all visited' := by
  induction specifiers generalizing visited found with
  | nil =>
    cases h
    exact ⟨found, .done⟩
  | cons s rest ih =>
    cases leads : n.links.supplier? (isOf s) with
    | none =>
      simp only [List.filterMap_cons, leads] at h
      obtain ⟨all, behind⟩ := ih found h
      exact ⟨all, .skip leads behind⟩
    | some target =>
      simp only [List.filterMap_cons, leads, List.foldlM_cons] at h
      cases first : visit visited target with
      | none =>
        rw [first] at h
        cases h
      | some visited₁ =>
        rw [first] at h
        obtain ⟨more, there⟩ := sees first
        obtain ⟨all, behind⟩ := ih (more.foldl (addThroughStar n s) found) h
        exact ⟨all, .star leads there behind⟩

theorem exists_of_foldlM_eq_none {targets : List String}
    (keeps : ∀ {visited path visited'}, visit visited path = some visited' → visited ⊆ visited')
    (h : targets.foldlM visit visited = none) :
    ∃ target ∈ targets, ∃ visited', visited ⊆ visited' ∧ visit visited' target = none := by
  induction targets generalizing visited with
  | nil => cases h
  | cons target rest ih =>
    rw [List.foldlM_cons] at h
    cases first : visit visited target with
    | none => exact ⟨target, List.mem_cons_self, visited, List.Subset.refl _, first⟩
    | some visited₁ =>
      rw [first] at h
      obtain ⟨target', mem, later, sub, fails⟩ := ih h
      exact ⟨target', List.mem_cons_of_mem _ mem, later, List.Subset.trans (keeps first) sub, fails⟩

end

/-- What a call of the walk does: it stops at a file that was visited before or is not in the graph,
and otherwise makes a call for each file that a star export of it names. -/
theorem visitWithin_succ (calls : Nat) (visited : List String) (path : String) :
    visitWithin g stars (calls + 1) visited path =
      if path ∈ visited then some visited
      else match g.node? path with
        | none => some (path :: visited)
        | some n => (starTargets stars n).foldlM (visitWithin g stars calls) (path :: visited) := by
  rw [visitWithin]
  exact if_congr List.contains_iff_mem rfl rfl

/-- A walk with calls enough visits what the expansion of star exports visits. -/
theorem sees_of_visitWithin {calls : Nat} {visited : List String} {path : String}
    {visited' : List String} (h : visitWithin g stars calls visited path = some visited') :
    ∃ all, Sees g stars (.file path) visited all visited' := by
  induction calls generalizing visited path visited' with
  | zero => cases h
  | succ calls ih =>
    rw [visitWithin_succ] at h
    split at h
    · next old =>
      cases h
      exact ⟨[], .seen old⟩
    · next new =>
      cases node : g.node? path with
      | none =>
        rw [node] at h
        cases h
        exact ⟨[], .missing new node⟩
      | some n =>
        simp only [node, starTargets, path_of_node? node] at h
        obtain ⟨all, through⟩ := sees_of_foldlM ih n.exports h
        exact ⟨all, .node new node through⟩

theorem subset_of_visitWithin {calls : Nat} {visited : List String} {path : String}
    {visited' : List String} (h : visitWithin g stars calls visited path = some visited') :
    visited ⊆ visited' := by
  obtain ⟨all, sees⟩ := sees_of_visitWithin h
  exact sees.subset

/-- Files of the graph, one after the other along star exports, none twice and none of those
visited before. -/
structure IsWay (g : Graph) (stars : Stars) (visited way : List String) : Prop where
  linked : List.IsChain (StarTo g stars) way
  nodup : way.Nodup
  fresh : ∀ path ∈ way, path ∉ visited
  inside : ∀ path ∈ way, g.has path = true

theorem IsWay.cons {visited visited' way : List String} {path : String} {n : Node}
    (node : g.node? path = some n) (new : path ∉ visited) (sub : path :: visited ⊆ visited')
    (first : ∀ next ∈ way.head?, StarTo g stars path next) (h : IsWay g stars visited' way) :
    IsWay g stars visited (path :: way) where
  linked := List.isChain_cons.2 ⟨first, h.linked⟩
  nodup := List.nodup_cons.2
    ⟨fun mem => h.fresh path mem (sub List.mem_cons_self), h.nodup⟩
  fresh := by
    intro p hp
    rcases List.mem_cons.1 hp with rfl | hp
    · exact new
    · exact fun old => h.fresh p hp (sub (List.mem_cons_of_mem _ old))
  inside := by
    intro p hp
    rcases List.mem_cons.1 hp with rfl | hp
    · exact has_of_node? node
    · exact h.inside p hp

/-- A walk that needs more calls than may be open has come along as many files. -/
theorem exists_isWay {calls : Nat} {visited : List String} {path : String}
    (h : visitWithin g stars calls visited path = none) :
    ∃ way, way.length = calls ∧ (∀ first ∈ way.head?, first = path) ∧
      IsWay g stars visited way := by
  induction calls generalizing visited path with
  | zero => exact ⟨[], rfl, by simp, .nil, List.nodup_nil, by simp, by simp⟩
  | succ calls ih =>
    rw [visitWithin_succ] at h
    split at h
    · cases h
    · next new =>
      cases node : g.node? path with
      | none =>
        rw [node] at h
        cases h
      | some n =>
        rw [node] at h
        obtain ⟨target, mem, visited', sub, fails⟩ :=
          exists_of_foldlM_eq_none subset_of_visitWithin h
        obtain ⟨way, length, first, isWay⟩ := ih fails
        refine ⟨path :: way, by rw [List.length_cons, length], by simp, ?_⟩
        refine isWay.cons node new sub ?_
        intro next hnext
        rw [first next hnext]
        exact (mem_starTargets_iff node).1 mem

theorem le_length_of_visitWithin {calls : Nat} {visited : List String} {path : String}
    (h : visitWithin g stars calls visited path = none) : calls ≤ g.nodes.length := by
  obtain ⟨way, rfl, -, isWay⟩ := exists_isWay h
  have inside : way ⊆ g.paths := by
    intro p hp
    obtain ⟨n, node⟩ := exists_node?_of_has (isWay.inside p hp)
    rw [← path_of_node? node]
    exact List.mem_map_of_mem (List.mem_of_find?_eq_some node)
  have := (List.subperm_of_subset isWay.nodup inside).length_le
  simpa [Graph.paths] using this

end Graph

/-! ### Re-exports -/

namespace Flow

theorem calls_through (f : Flow) (relative : String) :
    ({ f with chain := relative :: f.chain } : Flow).calls = f.calls + 1 := by
  unfold calls
  cases f.form <;> simp

/-- Each call but the last stands for a file that was not visited before. -/
theorem calls_traceFrom_le (g : Graph) (visited : List String) (path name : String) :
    (traceFrom g visited path name).calls ≤ g.unvisited visited + 1 := by
  fun_induction traceFrom g visited path name with
  | case1 | case2 | case3 | case5 | case6 => simp [calls]
  | case4 visited path name new n node e found own =>
    unfold calls
    split
    · exact Nat.zero_le _
    · exact Nat.le_add_left 1 _
  | case7 visited path name new n node e found own target next part f ih =>
    have fewer : g.unvisited (path :: visited) < g.unvisited visited :=
      g.unvisited_cons_lt visited path (Graph.has_of_node? node) (by simpa using new)
    have rest : f.calls ≤ g.unvisited (path :: visited) + 1 := ih
    rw [calls_through]
    omega

theorem calls_trace_le (g : Graph) (path name : String) :
    (trace g path name).calls ≤ g.nodes.length + 1 := by
  have all : g.unvisited [] ≤ g.nodes.length := List.length_filter_le _ _
  have bound := calls_traceFrom_le g [] path name
  unfold trace
  omega

end Flow

/-! ### Walks that are too deep -/

namespace Builder

variable {calls : Nat} {t : FileTree} {b : Builder} {entries : List String}

/-- The source files at hand. -/
def files (b : Builder) (t : FileTree) : List String := Discovery.files t b.search

/-- What comes of the source files at hand. -/
def done (b : Builder) (t : FileTree) : List Outcome := (outcomes t b (b.files t)).1

/-- The star exports of the source files at hand. -/
def stars (b : Builder) (t : FileTree) : Graph.Stars := starsOf (b.done t)

/-- The graph of the source files at hand, before their star exports are followed. -/
def linked (b : Builder) (t : FileTree) : Graph := ⟨b.root, nodesInOrder (b.files t) (b.done t)⟩

/-- A walk needs more calls at once than may be open. -/
inductive TooDeep (calls : Nat) (t : FileTree) (b : Builder) (entries : List String) : Prop
  /-- Folders are in each other. -/
  | folders {tree : FileTree} (found : t.find? b.root = some tree)
      (nested : Discovery.Nests tree (calls + 1))
  /-- Declarations are around each other in a source. -/
  | declarations {path : String} {trees : List Script.Tree} {s : Script.Tree}
      (file : path ∈ b.files t) (source : Source.statements? t path = some trees) (mem : s ∈ trees)
      (nested : calls < Script.declaringCallsAtTop s)
  /-- Star exports lead on from a file. -/
  | stars {path : String} (mem : path ∈ (b.stars t).map Prod.fst)
      (nested : (b.linked t).visitWithin (b.stars t) calls [] path = none)
  /-- Re-exports lead on from an entry. -/
  | reexports {n : Node} {name : String}
      (mem : (n, name) ∈ Flow.traced (b.build t entries).1 (b.build t entries).1.entries)
      (nested : calls < (Flow.trace (b.build t entries).1 n.path name).calls)

theorem starsOverflow_iff : b.starsOverflow calls (b.files t) (b.done t) = true ↔
    ∃ path ∈ (b.stars t).map Prod.fst,
      (b.linked t).visitWithin (b.stars t) calls [] path = none := by
  unfold starsOverflow
  simp only [List.any_eq_true, Option.isNone_iff_eq_none, List.mem_map]
  constructor
  · rintro ⟨s, hs, fails⟩
    exact ⟨s.1, ⟨s, hs, rfl⟩, fails⟩
  · rintro ⟨_, ⟨s, hs, rfl⟩, fails⟩
    exact ⟨s, hs, fails⟩

/-- What the analysis checks is that no walk is too deep. -/
theorem overflows_iff :
    Analysis.overflows calls t b (b.files t) (b.done t) (b.build t entries).1 = true ↔
      b.TooDeep calls t entries := by
  unfold Analysis.overflows
  rw [Bool.or_eq_true, Bool.or_eq_true, Bool.or_eq_true, decide_eq_true_eq,
    Discovery.lt_depth_iff, starsOverflow_iff]
  simp only [List.any_eq_true, decide_eq_true_eq]
  constructor
  · rintro (((⟨tree, found, nested⟩ | ⟨path, file, s, mem, nested⟩) | ⟨path, mem, nested⟩) |
      ⟨⟨n, name⟩, mem, nested⟩)
    · exact .folders found nested
    · cases source : Source.statements? t path with
      | none =>
        rw [source] at mem
        cases mem
      | some trees =>
        rw [source] at mem
        exact .declarations file source mem nested
    · exact .stars mem nested
    · exact .reexports mem nested
  · rintro (⟨found, nested⟩ | ⟨file, source, mem, nested⟩ | ⟨mem, nested⟩ | ⟨mem, nested⟩)
    · exact .inl (.inl (.inl ⟨_, found, nested⟩))
    · exact .inl (.inl (.inr ⟨_, file, _, by rwa [source], nested⟩))
    · exact .inl (.inr ⟨_, mem, nested⟩)
    · exact .inr ⟨_, mem, nested⟩

theorem length_nodes_linked : (b.linked t).nodes.length ≤ (b.files t).length :=
  List.length_filterMap_le _ _

theorem length_nodes_build : (b.build t entries).1.nodes.length ≤ (b.files t).length := by
  have paths : (b.build t entries).1.paths = (b.linked t).nodes.map Node.path :=
    paths_assemble_eq _ entries (b.files t) (b.done t)
  have same := congrArg List.length paths
  rw [Graph.paths, List.length_map, List.length_map] at same
  exact same ▸ length_nodes_linked

/-- Folders and declarations nest too deep, or the project has as many source files as calls may be
open. -/
theorem TooDeep.cases (h : b.TooDeep calls t entries) :
    (∃ tree, t.find? b.root = some tree ∧ Discovery.Nests tree (calls + 1)) ∨
    (∃ path ∈ b.files t, ∃ trees, Source.statements? t path = some trees ∧
      ∃ s ∈ trees, calls < Script.declaringCallsAtTop s) ∨
    calls ≤ (b.files t).length := by
  cases h with
  | folders found nested => exact .inl ⟨_, found, nested⟩
  | declarations file source mem nested => exact .inr (.inl ⟨_, file, _, source, _, mem, nested⟩)
  | stars mem nested =>
    exact .inr (.inr (Nat.le_trans (Graph.le_length_of_visitWithin nested) length_nodes_linked))
  | @reexports n name mem nested =>
    have few := Flow.calls_trace_le (b.build t entries).1 n.path name
    have less : (b.build t entries).1.nodes.length ≤ (b.files t).length := length_nodes_build
    exact .inr (.inr (by omega))

end Builder

end ModuleAtlas
