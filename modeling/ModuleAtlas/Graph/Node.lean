/-
ModuleAtlas/Graph/Node.lean

Files and what connects them.
-/
import ModuleAtlas.Role

namespace ModuleAtlas

/-- A list with one more element at its end, unless it is there already. -/
def insertNew {α : Type} [BEq α] (xs : List α) (x : α) : List α :=
  if xs.contains x then xs else xs ++ [x]

theorem mem_insertNew {α : Type} [BEq α] [LawfulBEq α] {xs : List α} {x y : α} :
    y ∈ insertNew xs x ↔ y ∈ xs ∨ y = x := by
  unfold insertNew
  split
  · next old =>
    constructor
    · exact .inl
    · rintro (h | rfl)
      · exact h
      · simpa using old
  · simp

theorem mem_foldl_insertNew {α : Type} [BEq α] [LawfulBEq α] {xs new : List α} {y : α} :
    y ∈ new.foldl insertNew xs ↔ y ∈ xs ∨ y ∈ new := by
  induction new generalizing xs with
  | nil => simp
  | cons x new ih => rw [List.foldl_cons, ih, mem_insertNew, List.mem_cons, or_assoc]

theorem nodup_insertNew {α : Type} [BEq α] [LawfulBEq α] {xs : List α} {x : α} (h : xs.Nodup) :
    (insertNew xs x).Nodup := by
  unfold insertNew
  split
  · exact h
  · next new =>
    refine List.nodup_append.2 ⟨h, by simp, ?_⟩
    rintro a ha b hb rfl
    obtain rfl := List.mem_singleton.1 hb
    exact new (List.contains_iff_mem.2 ha)

theorem nodup_foldl_insertNew {α : Type} [BEq α] [LawfulBEq α] {xs new : List α} (h : xs.Nodup) :
    (new.foldl insertNew xs).Nodup := by
  induction new generalizing xs with
  | nil => exact h
  | cons x new ih => exact ih (nodup_insertNew h)

/-- Elements of which none is there twice are all put in. -/
theorem foldl_insertNew_of_nodup {α : Type} [BEq α] [LawfulBEq α] {xs new : List α}
    (h : (xs ++ new).Nodup) : new.foldl insertNew xs = xs ++ new := by
  induction new generalizing xs with
  | nil => exact (List.append_nil xs).symm
  | cons x new ih =>
    have other : x ∉ xs := fun here =>
      (List.nodup_append.1 h).2.2 x here x List.mem_cons_self rfl
    have step : insertNew xs x = xs ++ [x] := if_neg fun here => other (List.contains_iff_mem.1 here)
    rw [List.foldl_cons, step, ih (by simpa using h), List.append_assoc, List.singleton_append]

/-- Elements that are there already are not put in again. -/
theorem foldl_insertNew_of_subset {α : Type} [BEq α] [LawfulBEq α] {xs new : List α}
    (h : ∀ x ∈ new, x ∈ xs) : new.foldl insertNew xs = xs := by
  induction new with
  | nil => rfl
  | cons x new ih =>
    have here : insertNew xs x = xs := if_pos (List.contains_iff_mem.2 (h x List.mem_cons_self))
    rw [List.foldl_cons, here]
    exact ih fun y hy => h y (List.mem_cons_of_mem x hy)

/-- What is put in one by one is the list without later repetitions. -/
theorem foldl_insertNew_eraseDups {α : Type} [BEq α] [LawfulBEq α] (xs ys : List α) :
    ys.foldl insertNew xs.eraseDups = (xs ++ ys).eraseDups := by
  induction ys generalizing xs with
  | nil => rw [List.append_nil]; rfl
  | cons y ys ih =>
    have step : insertNew xs.eraseDups y = (xs ++ [y]).eraseDups := by
      unfold insertNew
      by_cases old : y ∈ xs <;>
        simp [List.eraseDups_append, List.eraseDups_cons, List.removeAll, old]
    rw [List.foldl_cons, step, ih, List.append_assoc, List.singleton_append]

theorem foldl_insertNew_nil {α : Type} [BEq α] [LawfulBEq α] (ys : List α) :
    ys.foldl insertNew [] = ys.eraseDups :=
  foldl_insertNew_eraseDups [] ys

/-- An element is found under its key where no other one has that key. -/
theorem find?_key_of_nodup {α κ : Type} [BEq κ] [LawfulBEq κ] {key : α → κ} {xs : List α} {x : α}
    (once : (xs.map key).Nodup) (h : x ∈ xs) : xs.find? (fun y => key y == key x) = some x := by
  obtain ⟨before, after, rfl⟩ := List.append_of_mem h
  rw [List.map_append, List.nodup_append] at once
  refine List.find?_eq_some_iff_append.2 ⟨beq_self_eq_true _, before, after, rfl, ?_⟩
  intro y hy
  have other : key y ≠ key x := once.2.2 _ (List.mem_map_of_mem hy) _ (by simp)
  simpa using other

theorem contains_map_key {α κ : Type} [BEq κ] [LawfulBEq κ] (key : α → κ) (xs : List α) (k : κ) :
    (xs.map key).contains k = xs.any fun x => key x == k := by
  rw [List.contains_eq_any_beq, List.any_map]
  exact congrArg xs.any (funext fun x => Bool.beq_comm)

/-- Files that are imported from, each with its imports. -/
abbrev Targets := List (String × List Import)

namespace Targets

/-- One more import from a file. -/
def add (ts : Targets) (target : String) (i : Import) : Targets :=
  if ts.any fun t => t.1 == target then
    ts.map fun t => if t.1 == target then (t.1, t.2 ++ [i]) else t
  else ts ++ [(target, [i])]

/-- Files that are listed once are listed once with one more import. -/
theorem nodup_add {ts : Targets} (h : (ts.map Prod.fst).Nodup) (target : String) (i : Import) :
    ((ts.add target i).map Prod.fst).Nodup := by
  unfold add
  split
  · have keep : (Prod.fst ∘ fun t : String × List Import =>
        if t.1 == target then (t.1, t.2 ++ [i]) else t) = Prod.fst := by
      funext t
      show (if t.1 == target then (t.1, t.2 ++ [i]) else t).1 = t.1
      split <;> rfl
    rw [List.map_map, keep]
    exact h
  · next new =>
    rw [List.map_append]
    refine List.nodup_append.2 ⟨h, by simp, ?_⟩
    rintro a ha b hb rfl
    obtain rfl : a = target := by simpa using hb
    obtain ⟨t, ht, eq⟩ := List.mem_map.1 ha
    exact new (List.any_eq_true.2 ⟨t, ht, by simp [eq]⟩)

end Targets

/-- What the imports of a file lead to. -/
structure Links where
  /-- The files imported from, each with its imports, in the order of the first of
  them. -/
  internal : Targets := []
  /-- Each file imported from is listed once. -/
  distinct : (internal.map Prod.fst).Nodup := by exact List.nodup_nil
  /-- The packages imported from. -/
  external : List String := []
  /-- The specifiers that mean no file. -/
  unresolved : List String := []
  /-- The imports from packages. -/
  packaged : List Import := []
deriving DecidableEq, Repr

instance : Inhabited Links := ⟨{}⟩

namespace Links

/-- One more import from a file. -/
def addInternal (l : Links) (target : String) (i : Import) : Links :=
  { l with
    internal := l.internal.add target i
    distinct := Targets.nodup_add l.distinct target i }

/-- One more import from a package. -/
def addExternal (l : Links) (package : String) (i : Import) : Links :=
  { l with external := insertNew l.external package, packaged := l.packaged ++ [i] }

/-- One more specifier that means no file. -/
def addUnresolved (l : Links) (specifier : String) : Links :=
  { l with unresolved := insertNew l.unresolved specifier }

/-- The files imported from. -/
def targets (l : Links) : List String := l.internal.map Prod.fst

/-- The first file with an import of the given property. -/
def supplier? (l : Links) (p : Import → Bool) : Option String :=
  (l.internal.find? fun t => t.2.any p).map Prod.fst

end Links

/-- A file of the graph. -/
structure Node where
  path : String
  /-- The path as seen from the root of the project. -/
  relative : String
  links : Links := {}
  exports : List Export := []
  importedBy : List String := []
  role : Role := .unknown
  lineCount : Nat := 0
deriving DecidableEq, Repr, Inhabited

/-- The first export of a name. -/
def Node.export? (n : Node) (name : String) : Option Export :=
  n.exports.find? fun e => e.name == name

/-- The files of a project and what connects them. -/
structure Graph where
  root : String
  nodes : List Node := []
deriving DecidableEq, Repr, Inhabited

namespace Graph

/-- The node of a path. -/
def node? (g : Graph) (path : String) : Option Node := g.nodes.find? fun n => n.path == path

/-- The path is that of a node. -/
def has (g : Graph) (path : String) : Bool := g.nodes.any fun n => n.path == path

/-- The paths of the nodes. -/
def paths (g : Graph) : List String := g.nodes.map Node.path

/-- A path as seen from the root, whether it is that of a node or not. -/
def relative (g : Graph) (path : String) : String :=
  match g.node? path with
  | some n => n.relative
  | none => Path.relative path g.root

/-- The graph with every node changed. -/
def map (g : Graph) (f : Node → Node) : Graph := { g with nodes := g.nodes.map f }

/-- A change that keeps the paths changes the node of each path. -/
theorem node?_map (g : Graph) {f : Node → Node} (keeps : ∀ n, (f n).path = n.path)
    (path : String) : (g.map f).node? path = (g.node? path).map f := by
  unfold node? map
  rw [List.find?_map]
  congr 2
  funext n
  show ((f n).path == path) = (n.path == path)
  rw [keeps]

/-- The node of a path has that path. -/
theorem path_of_node? {g : Graph} {path : String} {n : Node} (h : g.node? path = some n) :
    n.path = path := by
  simpa using List.find?_some h

/-- Where each path is there once, a node is found under its own path. -/
theorem node?_of_mem {g : Graph} {n : Node} (once : g.paths.Nodup) (h : n ∈ g.nodes) :
    g.node? n.path = some n :=
  find?_key_of_nodup once h

/-- The files that count as entries of the project. -/
def entries (g : Graph) : List String :=
  (g.nodes.filter fun n => n.role == .entry).map Node.path

/-- How many imports lead from file to file. -/
def edgeCount (g : Graph) : Nat := (g.nodes.flatMap fun n => n.links.internal).length

end Graph

end ModuleAtlas
