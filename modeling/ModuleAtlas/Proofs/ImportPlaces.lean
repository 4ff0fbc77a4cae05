/-
ModuleAtlas/Proofs/ImportPlaces.lean

The imports of a script by the places that they come from.

A place in a script is told by numbers: which statement, which part of it, which part of that, and
so on (`Spot.at?`).  Import statements and exports from other modules count at the top level, where
a place is one number, and calls of the loader count at every place (`Tells`).

Each place tells of one import at most, and the walk over the trees comes to each place once.  So
the imports of a script are `Listed` by place: there is one for each place that tells of one, and no
other.  Putting them in reading order changes the list and not what is listed
(`listed_imports`, `ordered_imports`).

A call counts if its first argument is a string, and a comment in front of the string is an argument
as well.  `Spot.Loads` therefore has the number of comments in front, and only the calls without
any are listed (`Tells.hidden`).
-/
import ModuleAtlas.Proofs.ScriptRecords

namespace ModuleAtlas

/-! ### Reading order -/

theorem Position.le_iff {a b : Position} :
    a.le b = true ↔ a.line < b.line ∨ a.line = b.line ∧ a.column ≤ b.column := by
  simp [le]

theorem Position.le_trans {a b c : Position} (h : a.le b = true) (h' : b.le c = true) :
    a.le c = true := by
  rw [le_iff] at *
  omega

theorem Position.le_total (a b : Position) : (a.le b || b.le a) = true := by
  rw [Bool.or_eq_true, le_iff, le_iff]
  omega

namespace Script

/-! ### Lists by place -/

/-- The imports are those of the places, with one row for each place that has one. -/
def Listed (R : List Nat → Import → Prop) (is : List Import) : Prop :=
  ∃ rows : List (List Nat × Import), rows.map Prod.snd = is ∧ (rows.map Prod.fst).Nodup ∧
    ∀ place i, (place, i) ∈ rows ↔ R place i

namespace Listed

variable {R R' : List Nat → Import → Prop} {is js : List Import}

theorem congr (h : Listed R is) (same : ∀ place i, R place i ↔ R' place i) : Listed R' is := by
  obtain ⟨rows, imports, once, iff⟩ := h
  exact ⟨rows, imports, once, fun place i => (iff place i).trans (same place i)⟩

theorem empty (none : ∀ place i, ¬ R place i) : Listed R [] :=
  ⟨[], rfl, List.nodup_nil, fun place i => iff_of_false List.not_mem_nil (none place i)⟩

theorem single {place : List Nat} {i : Import} (only : ∀ p j, R p j ↔ p = place ∧ j = i) :
    Listed R [i] := by
  refine ⟨[(place, i)], rfl, by simp, fun p j => ?_⟩
  rw [only, List.mem_singleton, Prod.mk.injEq]

theorem append (h : Listed R is) (h' : Listed R' js)
    (apart : ∀ place i j, R place i → ¬ R' place j) :
    Listed (fun place i => R place i ∨ R' place i) (is ++ js) := by
  obtain ⟨rows, rfl, once, iff⟩ := h
  obtain ⟨rows', rfl, once', iff'⟩ := h'
  refine ⟨rows ++ rows', List.map_append, ?_, fun place i => ?_⟩
  · rw [List.map_append]
    refine List.nodup_append.2 ⟨once, once', ?_⟩
    rintro place here _ there rfl
    obtain ⟨⟨p, i⟩, hi, rfl⟩ := List.mem_map.1 here
    obtain ⟨⟨p', j⟩, hj, rfl⟩ := List.mem_map.1 there
    exact apart p' i j ((iff _ _).1 hi) ((iff' _ _).1 hj)
  · rw [List.mem_append, iff, iff']

/-- Places one level further in. -/
theorem below (h : Listed R is) (k : Nat) :
    Listed (fun place i => ∃ q, place = k :: q ∧ R q i) is := by
  obtain ⟨rows, rfl, once, iff⟩ := h
  refine ⟨rows.map fun row => (k :: row.1, row.2), ?_, ?_, fun place i => ?_⟩
  · rw [List.map_map]
    rfl
  · have shifted : (rows.map fun row => (k :: row.1, row.2)).map Prod.fst =
        (rows.map Prod.fst).map (k :: ·) := by
      rw [List.map_map, List.map_map]
      rfl
    rw [shifted]
    exact List.pairwise_map.2 (once.imp fun ne eq => ne (List.cons.inj eq).2)
  · rw [List.mem_map]
    constructor
    · rintro ⟨⟨q, j⟩, hj, eq⟩
      obtain ⟨rfl, rfl⟩ := Prod.mk.inj eq
      exact ⟨q, rfl, (iff q j).1 hj⟩
    · rintro ⟨q, rfl, hq⟩
      exact ⟨(q, i), (iff q i).2 hq, rfl⟩

/-- What is listed for each of some things is listed for all of them, each under its number. -/
theorem flatMap {α : Type} {xs : List α} {f : α → List Import} {Q : α → List Nat → Import → Prop}
    (each : ∀ x ∈ xs, Listed (Q x) (f x)) :
    Listed (fun place i => ∃ k q x, place = k :: q ∧ xs[k]? = some x ∧ Q x q i) (xs.flatMap f) := by
  -- the numbers of the rest start where those of the things before it end
  have from' : ∀ (n : Nat) (xs : List α), (∀ x ∈ xs, Listed (Q x) (f x)) →
      Listed (fun place i => ∃ k q x, place = (n + k) :: q ∧ xs[k]? = some x ∧ Q x q i)
        (xs.flatMap f) := by
    intro n xs
    induction xs generalizing n with
    | nil => exact fun _ => empty fun place i ⟨k, q, x, _, there, _⟩ => by simp at there
    | cons x xs ih =>
      intro each
      have first := (each x List.mem_cons_self).below n
      have rest := ih (n + 1) fun y hy => each y (List.mem_cons_of_mem x hy)
      rw [List.flatMap_cons]
      refine (first.append rest ?_).congr fun place i => ?_
      · rintro place i j ⟨q, rfl, -⟩ ⟨k, q', y, eq, -, -⟩
        have := (List.cons.inj eq).1
        omega
      · constructor
        · rintro (⟨q, rfl, hq⟩ | ⟨k, q, y, rfl, there, hq⟩)
          · exact ⟨0, q, x, rfl, rfl, hq⟩
          · exact ⟨k + 1, q, y, by rw [Nat.add_right_comm, Nat.add_assoc], there, hq⟩
        · rintro ⟨k, q, y, rfl, there, hq⟩
          cases k with
          | zero =>
            obtain rfl : x = y := by simpa using there
            exact .inl ⟨q, rfl, hq⟩
          | succ k => exact .inr ⟨k, q, y, by rw [Nat.add_right_comm, Nat.add_assoc], there, hq⟩
  simpa only [Nat.zero_add] using from' 0 xs each

theorem map (h : Listed R is) (f : Import → Import) :
    Listed (fun place i => ∃ j, R place j ∧ i = f j) (is.map f) := by
  obtain ⟨rows, rfl, once, iff⟩ := h
  refine ⟨rows.map fun row => (row.1, f row.2), ?_, ?_, fun place i => ?_⟩
  · rw [List.map_map, List.map_map]
    rfl
  · rw [List.map_map]
    exact once
  · rw [List.mem_map]
    constructor
    · rintro ⟨⟨p, j⟩, hj, eq⟩
      obtain ⟨rfl, rfl⟩ := Prod.mk.inj eq
      exact ⟨j, (iff p j).1 hj, rfl⟩
    · rintro ⟨j, hj, rfl⟩
      exact ⟨(place, j), (iff place j).2 hj, rfl⟩

/-- Imports in another order are listed as well. -/
theorem sort (h : Listed R is) (le : Import → Import → Bool) : Listed R (is.mergeSort le) := by
  obtain ⟨rows, rfl, once, iff⟩ := h
  have perm : (rows.mergeSort fun a b => le a.2 b.2).Perm rows := List.mergeSort_perm rows _
  refine ⟨rows.mergeSort fun a b => le a.2 b.2, ?_, ?_, fun place i => ?_⟩
  · exact List.map_mergeSort fun _ _ _ _ => rfl
  · exact (perm.map Prod.fst).nodup_iff.2 once
  · rw [perm.mem_iff, iff]

end Listed

/-! ### Places in a tree -/

/-- A tree in a script.  The holder is what a variable binds that has the tree as its value. -/
structure Spot where
  holder : Option Tree
  tree : Tree

/-- A tree that is not the value of a variable. -/
def Spot.free (tree : Tree) : Spot := ⟨none, tree⟩

/-- The parts of a tree in reading order. -/
def Tree.parts : Tree → List Spot
  | .call _ callee types args => (callee :: (types ++ args)).map .free
  | .rename _ inside value => (inside ++ [value]).map .free
  | .defaulted target value => [target, value].map .free
  | .declarator _ target typing value =>
    (target :: typing).map .free ++ (value.map (Spot.mk (some target))).toList
  | .exportDeclaration _ decorators inner | .exportValue _ decorators inner =>
    (decorators ++ [inner]).map .free
  | .ambient inner => [.free inner]
  | .fields parts | .reference parts | .function _ _ parts | .classValue _ parts | .group parts
  | .declaration _ parts | .variableList _ parts | .importing _ _ _ _ parts
  | .exportOther parts => parts.map .free
  | .name _ | .shorthand _ | .quoted _ | .remark | .loader | .exportFrom _ _ _ _
  | .exportNames _ => []

mutual

-- A variable has one part that is not free, which is why the holder is any one here.

theorem Spot.induct {P : Spot → Prop} (step : ∀ s : Spot, (∀ p ∈ s.tree.parts, P p) → P s)
    (holder : Option Tree) : (tree : Tree) → P ⟨holder, tree⟩
  | .call _ callee types args => by
    apply step
    simp only [Tree.parts, List.map_cons, List.map_append, List.forall_mem_cons,
      List.forall_mem_append]
    exact ⟨Spot.induct step none callee, Spot.inducts step types, Spot.inducts step args⟩
  | .rename _ inner value | .exportDeclaration _ inner value | .exportValue _ inner value => by
    apply step
    simp only [Tree.parts, List.map_append, List.forall_mem_append, List.map_singleton,
      List.forall_mem_singleton]
    exact ⟨Spot.inducts step inner, Spot.induct step none value⟩
  | .defaulted target value => by
    apply step
    simp only [Tree.parts, List.map_cons, List.forall_mem_cons, List.map_nil]
    exact ⟨Spot.induct step none target, Spot.induct step none value, nofun⟩
  | .declarator _ target typing none => by
    apply step
    simp only [Tree.parts, List.map_cons, List.cons_append, List.forall_mem_cons,
      List.forall_mem_append]
    exact ⟨Spot.induct step none target, Spot.inducts step typing, nofun⟩
  | .declarator _ target typing (some value) => by
    apply step
    simp only [Tree.parts, List.map_cons, List.cons_append, List.forall_mem_cons,
      List.forall_mem_append]
    refine ⟨Spot.induct step none target, Spot.inducts step typing, fun p hp => ?_⟩
    obtain rfl := List.mem_singleton.1 hp
    exact Spot.induct step (some target) value
  | .ambient inner => by
    apply step
    simp only [Tree.parts, List.forall_mem_singleton]
    exact Spot.induct step none inner
  | .fields parts | .reference parts | .function _ _ parts | .classValue _ parts | .group parts
  | .declaration _ parts | .variableList _ parts | .importing _ _ _ _ parts
  | .exportOther parts => step _ (Spot.inducts step parts)
  | .name _ | .shorthand _ | .quoted _ | .remark | .loader | .exportFrom _ _ _ _
  | .exportNames _ => step _ nofun

theorem Spot.inducts {P : Spot → Prop} (step : ∀ s : Spot, (∀ p ∈ s.tree.parts, P p) → P s) :
    (trees : List Tree) → ∀ p ∈ trees.map Spot.free, P p
  | [] => nofun
  | tree :: rest => by
    rw [List.map_cons, List.forall_mem_cons]
    exact ⟨Spot.induct step none tree, Spot.inducts step rest⟩

end

/-- What goes from the parts of a tree to the tree holds of every tree. -/
theorem Spot.induction {P : Spot → Prop} (step : ∀ s : Spot, (∀ p ∈ s.tree.parts, P p) → P s)
    (s : Spot) : P s :=
  Spot.induct step s.holder s.tree

/-- What is at a place: the numbers lead from part to part. -/
def Spot.at? (s : Spot) : List Nat → Option Spot
  | [] => some s
  | k :: place => s.tree.parts[k]?.bind (·.at? place)

/-! ### Calls of the loader -/

/-- A call of the loader for a string, with some comments in front of the string, and the import
that it makes.  The loader that works while the script runs takes the whole module, and the other
one what the holder takes apart. -/
def Spot.Loads (s : Spot) (comments : Nat) (i : Import) : Prop :=
  ∃ pos callee types specifier more,
    s.tree = .call pos callee types
      (List.replicate comments .remark ++ .quoted specifier :: more) ∧
    (callee = .loader ∧ i = { specifier, names := [wholeModule], dynamic := true, pos } ∨
      callee = .name "require" ∧
        i = { specifier, names := (takenInto specifier s.holder).1, pos })

/-- What a tree imports by itself. -/
def Spot.own (s : Spot) : List Import :=
  match s.tree with
  | .call pos callee _ args => (Found.ofCall s.holder pos callee args).imports
  | _ => []

/-- What the calls in a tree import. -/
def Spot.loads (s : Spot) : List Import := (Found.ofTree s.holder s.tree).imports

theorem imports_ofTrees (trees : List Tree) :
    (Found.ofTrees trees).imports = (trees.map Spot.free).flatMap Spot.loads := by
  induction trees with
  | nil => rfl
  | cons t trees ih =>
    rw [List.map_cons, List.flatMap_cons, ← ih]
    rfl

/-- The walk takes each part of a tree once. -/
theorem Spot.loads_eq (s : Spot) : s.loads = s.own ++ s.tree.parts.flatMap Spot.loads := by
  obtain ⟨holder, tree⟩ := s
  cases tree with
  | declarator pos target typing value =>
    cases value <;>
      simp [loads, own, Tree.parts, Found.ofTree, Found.ofValue, Found.append, imports_ofTrees,
        free]
  | _ => simp [loads, own, Tree.parts, Found.ofTree, Found.append, imports_ofTrees, free]

theorem loaderOf?_eq_true {t : Tree} : loaderOf? t = some true ↔ t = .loader := by
  unfold loaderOf?
  split <;> simp_all

theorem loaderOf?_eq_false {t : Tree} : loaderOf? t = some false ↔ t = .name "require" := by
  unfold loaderOf?
  split <;> simp_all

theorem Spot.loads_zero_iff {holder : Option Tree} {pos : Position} {callee : Tree}
    {types args : List Tree} {i : Import} :
    (Spot.mk holder (.call pos callee types args)).Loads 0 i ↔
      ∃ specifier more, args = .quoted specifier :: more ∧
        (callee = .loader ∧ i = { specifier, names := [wholeModule], dynamic := true, pos } ∨
          callee = .name "require" ∧
            i = { specifier, names := (takenInto specifier holder).1, pos }) := by
  constructor
  · rintro ⟨_, _, _, specifier, more, eq, made⟩
    cases eq
    exact ⟨specifier, more, rfl, made⟩
  · rintro ⟨specifier, more, rfl, made⟩
    exact ⟨pos, callee, types, specifier, more, rfl, made⟩

/-- A call imports something itself exactly if it calls the loader for a string. -/
theorem Spot.own_cases (s : Spot) :
    s.own = [] ∧ (∀ i, ¬ s.Loads 0 i) ∨ ∃ i, s.own = [i] ∧ ∀ j, s.Loads 0 j ↔ j = i := by
  obtain ⟨holder, tree⟩ := s
  cases tree with
  | call pos callee types args =>
    unfold own Found.ofCall
    dsimp only
    simp only [loads_zero_iff]
    split
    · next specifier more found =>
      obtain rfl := loaderOf?_eq_true.1 found
      exact .inr ⟨_, rfl, by simp⟩
    · next specifier more found =>
      obtain rfl := loaderOf?_eq_false.1 found
      exact .inr ⟨_, rfl, by simp⟩
    · next dynamic plain =>
      refine .inl ⟨rfl, ?_⟩
      rintro i ⟨specifier, more, rfl, ⟨rfl, -⟩ | ⟨rfl, -⟩⟩
      · exact dynamic specifier more rfl rfl
      · exact plain specifier more rfl rfl
  | _ =>
    refine .inl ⟨rfl, ?_⟩
    rintro i ⟨_, _, _, _, _, eq, -⟩
    cases eq

/-- **Calls of the loader by place**: the imports that are found in a tree are those of the calls
at its places. -/
theorem Spot.listed_loads (s : Spot) :
    Listed (fun place i => ∃ s', s.at? place = some s' ∧ s'.Loads 0 i) s.loads := by
  induction s using Spot.induction with
  | step s ih =>
  have own : Listed (fun place i => place = [] ∧ s.Loads 0 i) s.own := by
    rcases s.own_cases with ⟨nothing, none⟩ | ⟨i, eq, only⟩
    · rw [nothing]
      exact .empty fun place i h => none i h.2
    · rw [eq]
      exact .single fun place j => by rw [only]
  rw [s.loads_eq]
  refine (own.append (Listed.flatMap ih) ?_).congr fun place i => ?_
  · rintro _ i j ⟨rfl, -⟩ ⟨k, q, x, eq, -⟩
    cases eq
  · cases place with
    | nil => simp [Spot.at?]
    | cons k place =>
      constructor
      · rintro (⟨eq, -⟩ | ⟨_, _, p, eq, there, s', within, loads⟩)
        · cases eq
        · cases eq
          exact ⟨s', Option.bind_eq_some_iff.2 ⟨p, there, within⟩, loads⟩
      · rintro ⟨s', within, loads⟩
        obtain ⟨p, there, within⟩ := Option.bind_eq_some_iff.1 within
        exact .inr ⟨k, place, p, rfl, there, s', within, loads⟩

/-! ### Statements -/

/-- A statement that takes from another module, and the import that it makes. -/
inductive States : Tree → Import → Prop
  | importing (pos : Position) (typeOnly : Bool) (parts : List ImportPart) (specifier : String)
      (inside : List Tree) :
      States (.importing pos typeOnly parts specifier inside)
        { specifier, names := parts.map ImportPart.taken, typeOnly, pos }
  | exporting (pos : Position) (typeOnly : Bool) (taken : Taken) (specifier : String) :
      States (.exportFrom pos typeOnly taken specifier)
        { specifier, names := taken.imported, typeOnly, pos }

theorem listed_ofStatement (t : Tree) :
    Listed (fun place i => place = [] ∧ States t i) (Found.ofStatement t).imports := by
  cases t with
  | importing pos typeOnly parts specifier inside =>
    refine .single fun place j => and_congr_right fun _ => ⟨?_, ?_⟩
    · rintro ⟨⟩
      rfl
    · rintro rfl
      exact .importing pos typeOnly parts specifier inside
  | exportFrom pos typeOnly taken specifier =>
    refine .single fun place j => and_congr_right fun _ => ⟨?_, ?_⟩
    · rintro ⟨⟩
      rfl
    · rintro rfl
      exact .exporting pos typeOnly taken specifier
  | _ => exact .empty fun place i h => by cases h.2

/-! ### Scripts -/

variable {script : List Tree} {place : List Nat} {n : Nat} {i : Import}

/-- A place of a script tells of an import: a statement at the top level, or a call of the loader
anywhere, with some comments in front of its string. -/
inductive Tells (script : List Tree) : List Nat → Nat → Import → Prop
  | statement {k : Nat} {t : Tree} {i : Import} (there : script[k]? = some t)
      (states : States t i) : Tells script [k] 0 i
  | call {place : List Nat} {s : Spot} {n : Nat} {i : Import}
      (there : (Spot.free (.group script)).at? place = some s) (loads : s.Loads n i) :
      Tells script place n i

/-- The number of comments in front of a string is told by the arguments. -/
theorem comments_unique {m : Nat} {u v : String} {xs ys : List Tree}
    (h : List.replicate n Tree.remark ++ .quoted u :: xs =
      List.replicate m Tree.remark ++ .quoted v :: ys) : n = m := by
  induction n generalizing m with
  | zero =>
    cases m with
    | zero => rfl
    | succ m => cases h
  | succ n ih =>
    cases m with
    | zero => cases h
    | succ m => rw [ih (List.cons.inj h).2]

theorem Spot.at?_group (k : Nat) :
    (Spot.free (.group script)).at? [k] = script[k]?.map Spot.free := by
  show ((script.map Spot.free)[k]?).bind _ = _
  rw [List.getElem?_map]
  cases script[k]? <;> rfl

/-- A statement that takes from another module is no call. -/
theorem States.not_loads {t : Tree} {j : Import} (h : States t i) : ¬ (Spot.free t).Loads n j := by
  rintro ⟨_, _, _, _, _, eq, -⟩
  cases h <;> cases eq

/-- **A comment hides a call**: a place with comments in front of a string has no import. -/
theorem Tells.hidden {j : Import} (h : Tells script place (n + 1) i) :
    ¬ Tells script place 0 j := by
  obtain - | ⟨there, loads⟩ := h
  rintro (⟨there', states⟩ | ⟨there', loads'⟩)
  · rw [Spot.at?_group, there'] at there
    obtain rfl := Option.some.inj there
    exact states.not_loads loads
  · obtain rfl := Option.some.inj (there.symm.trans there')
    obtain ⟨_, _, _, _, _, eq, -⟩ := loads
    obtain ⟨_, _, _, _, _, eq', -⟩ := loads'
    rw [eq] at eq'
    injection eq' with _ _ _ args
    cases comments_unique args

theorem listed_all (script : List Tree) :
    Listed (fun place i => Tells script place 0 i) (Found.all script).imports := by
  have statements := Listed.flatMap fun t (_ : t ∈ script) => listed_ofStatement t
  have calls := (Spot.free (.group script)).listed_loads
  have eq : (Found.all script).imports =
      (script.flatMap fun t => (Found.ofStatement t).imports) ++
        (Spot.free (.group script)).loads := by
    show Found.imports (List.foldl _ _ _) ++ _ = _
    rw [foldl_ofStatement]
    simp only [Spot.loads, Spot.free, Found.ofTree]
    rfl
  rw [eq]
  refine (statements.append calls ?_).congr fun place i => ⟨?_, ?_⟩
  · rintro _ i j ⟨k, _, t, rfl, there, rfl, states⟩ ⟨s, at', loads⟩
    rw [Spot.at?_group, there] at at'
    obtain rfl := Option.some.inj at'
    exact states.not_loads loads
  · rintro (⟨k, _, t, rfl, there, rfl, states⟩ | ⟨s, there, loads⟩)
    · exact .statement there states
    · exact .call there loads
  · rintro (⟨there, states⟩ | ⟨there, loads⟩)
    · exact .inl ⟨_, _, _, rfl, there, rfl, states⟩
    · exact .inr ⟨_, there, loads⟩

/-- **The imports of a script by place**: one for each place that tells of one, with its package. -/
theorem listed_imports (script : List Tree) :
    Listed (fun place i => ∃ j, Tells script place 0 j ∧ i = withPackage j)
      (Found.ofScript script).imports :=
  ((listed_all script).sort _).map withPackage

theorem pos_withPackage (i : Import) : (withPackage i).pos = i.pos := by
  unfold withPackage
  split <;> rfl

/-- The imports of a script are in reading order. -/
theorem ordered_imports (script : List Tree) :
    (Found.ofScript script).imports.Pairwise fun a b => a.pos.le b.pos = true := by
  show (((Found.all script).imports.mergeSort _).map withPackage).Pairwise _
  rw [List.pairwise_map]
  simp only [pos_withPackage]
  apply List.pairwise_mergeSort
  · exact fun _ _ _ => Position.le_trans
  · exact fun a b => Position.le_total a.pos b.pos

end Script

end ModuleAtlas
