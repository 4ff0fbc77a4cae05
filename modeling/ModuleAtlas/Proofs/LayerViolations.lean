/-
ModuleAtlas/Proofs/LayerViolations.lean

What the layers say of a graph.

A file belongs to the layer that the first rule covering it names (`Architecture.Belongs`), and a
layer may import from what the last rule of its name lists (`Architecture.Allows`).  The layers are
kept with their files, and everything else is looked up there by the path as seen from the root.
So two things have to be known of the look-up: of the rules with one name only the last keeps the
files (`filter_withLast`), and in a graph with its paths in normal form, all with one slash in front
or all with two, the path as seen from the root tells the file (`Graph.IsPlaced.path_eq`).

Main result: `of_follows_layers`.  It needs the condition on the slashes: a path with two in front
names no file of a graph under one slash, but looks like one (`twofold`).
-/
import Mathlib.Data.List.Nodup
import ModuleAtlas.Analysis.Layer
import ModuleAtlas.Proofs.RelativePath

namespace ModuleAtlas

/-! ### Graphs with paths in normal form -/

/-- The paths that a graph speaks of: those of its files and those that they import from. -/
def Graph.places (g : Graph) : List String := g.paths ++ g.nodes.flatMap fun n => n.links.targets

/-- Every file is there once, every path is absolute and in normal form, and each file has its path
as seen from the root. -/
structure Graph.IsSeen (g : Graph) : Prop where
  once : g.paths.Nodup
  normal : ∀ p ∈ g.places, Path.IsNormal p
  seen : ∀ n ∈ g.nodes, n.relative = Path.relative n.path g.root

/-- Besides, the paths have equally many slashes in front: the normal form keeps two apart from
one, and how a path is seen from the root does not (`violations_of_twofold`). -/
structure Graph.IsPlaced (g : Graph) : Prop extends g.IsSeen where
  front : ∀ p ∈ g.places, ∀ q ∈ g.places,
    Path.leadingSlashes p.toList = Path.leadingSlashes q.toList

namespace Graph

variable {g : Graph} {n m : Node} {path : String}

theorem path_mem_places (h : n ∈ g.nodes) : n.path ∈ g.places :=
  List.mem_append_left _ (List.mem_map_of_mem h)

theorem target_mem_places (h : n ∈ g.nodes) (target : path ∈ n.links.targets) :
    path ∈ g.places :=
  List.mem_append_right _ (List.mem_flatMap.2 ⟨n, h, target⟩)

namespace IsPlaced

theorem relative_eq (placed : g.IsPlaced) (path : String) :
    g.relative path = Path.relative path g.root := by
  unfold Graph.relative
  cases found : g.node? path with
  | none => rfl
  | some n =>
    show n.relative = _
    rw [placed.seen n (List.mem_of_find?_eq_some found), Graph.path_of_node? found]

/-- The path as seen from the root tells the path. -/
theorem path_eq (placed : g.IsPlaced) {p q : String} (hp : p ∈ g.places) (hq : q ∈ g.places)
    (same : Path.relative p g.root = Path.relative q g.root) : p = q :=
  Path.relative_injective (placed.normal p hp) (placed.normal q hq) (placed.front p hp q hq) same

theorem relative_node (placed : g.IsPlaced) (h : n ∈ g.nodes) : g.relative n.path = n.relative := by
  rw [placed.relative_eq, placed.seen n h]

theorem nodup_relative (placed : g.IsPlaced) : (g.nodes.map Node.relative).Nodup := by
  have paths : (g.nodes.map Node.path).Nodup := placed.once
  rw [List.Nodup, List.pairwise_map] at paths ⊢
  refine paths.imp_of_mem ?_
  intro n m hn hm other same
  apply other
  apply placed.path_eq (path_mem_places hn) (path_mem_places hm)
  rw [← placed.seen n hn, ← placed.seen m hm, same]

end IsPlaced

end Graph

namespace Architecture

/-! ### What the rules say -/

/-- One of the rule's patterns holds of the file. -/
def Covers (rule : LayerRule) (relative : String) : Prop :=
  ∃ pattern ∈ rule.paths, Glob.holds (folded pattern) (folded relative) = true

/-- The first rule that covers the file names the layer. -/
def Belongs (rules : List LayerRule) (relative layer : String) : Prop :=
  ∃ before rule after, rules = before ++ rule :: after ∧ (∀ r ∈ before, ¬ Covers r relative) ∧
    Covers rule relative ∧ rule.name = layer

/-- No later rule has the same name. -/
def IsLast (rules : List LayerRule) (rule : LayerRule) : Prop :=
  ∃ before after, rules = before ++ rule :: after ∧ ∀ r ∈ after, r.name ≠ rule.name

/-- The last rule of the layer's name lists the other layer. -/
def Allows (rules : List LayerRule) (layer other : String) : Prop :=
  ∃ rule, IsLast rules rule ∧ rule.name = layer ∧ other ∈ rule.dependsOn

/-- An import from one file of the graph to another that goes against the layers, with the layers
that the files belong to. -/
inductive Against (g : Graph) (rules : List LayerRule) : Violation → Prop
  | edge {a b : Node} {la lb : String} (ha : a ∈ g.nodes) (hb : b ∈ g.nodes)
      (link : b.path ∈ a.links.targets) (source : Belongs rules a.relative la)
      (target : Belongs rules b.relative lb) (other : lb ≠ la) (barred : ¬ Allows rules la lb) :
      Against g rules ⟨a.relative, b.relative, la, lb⟩

variable {g : Graph} {rules : List LayerRule} {relative layer : String}

theorem applies_iff {rule : LayerRule} : applies rule relative = true ↔ Covers rule relative := by
  unfold applies Glob.anyHolds Covers
  rw [List.any_map, List.any_eq_true]
  simp only [Function.comp_apply]

theorem layerOf?_eq_some_iff :
    layerOf? rules relative = some layer ↔ Belongs rules relative layer := by
  unfold layerOf? Belongs
  rw [Option.map_eq_some_iff]
  simp only [List.find?_eq_some_iff_append, applies_iff, Bool.not_eq_true', ← Bool.not_eq_true]
  constructor
  · rintro ⟨rule, ⟨covers, before, after, split, first⟩, name⟩
    exact ⟨before, rule, after, split, first, covers, name⟩
  · rintro ⟨before, rule, after, split, first, covers, name⟩
    exact ⟨rule, ⟨covers, before, after, split, first⟩, name⟩

theorem Belongs.exists_rule (h : Belongs rules relative layer) :
    ∃ rule ∈ rules, Covers rule relative ∧ rule.name = layer := by
  obtain ⟨before, rule, after, rfl, -, covers, name⟩ := h
  exact ⟨rule, List.mem_append_right _ List.mem_cons_self, covers, name⟩

theorem Belongs.unique {other : String} (h : Belongs rules relative layer)
    (h' : Belongs rules relative other) : layer = other := by
  rw [← layerOf?_eq_some_iff] at h h'
  exact Option.some.inj (h.symm.trans h')

/-- The last rule of a name. -/
def lastNamed? (rules : List LayerRule) (layer : String) : Option LayerRule :=
  rules.reverse.find? fun r => r.name == layer

theorem lastNamed?_eq_some_iff {rule : LayerRule} :
    lastNamed? rules layer = some rule ↔ IsLast rules rule ∧ rule.name = layer := by
  unfold lastNamed? IsLast
  rw [List.find?_eq_some_iff_append]
  simp only [beq_iff_eq, Bool.not_eq_true', beq_eq_false_iff_ne]
  constructor
  · rintro ⟨rfl, after, before, split, last⟩
    refine ⟨⟨before.reverse, after.reverse, ?_, ?_⟩, rfl⟩
    · rw [← List.reverse_reverse rules, split]
      simp
    · exact fun r hr => last r (List.mem_reverse.1 hr)
  · rintro ⟨⟨before, after, rfl, last⟩, rfl⟩
    refine ⟨rfl, after.reverse, before.reverse, by simp, ?_⟩
    exact fun r hr => last r (List.mem_reverse.1 hr)

theorem exists_lastNamed? {rule : LayerRule} (h : rule ∈ rules) :
    ∃ last, lastNamed? rules rule.name = some last := by
  rw [← Option.isSome_iff_exists]
  unfold lastNamed?
  rw [List.find?_isSome]
  exact ⟨rule, List.mem_reverse.2 h, beq_self_eq_true _⟩

/-! ### Layers with their files -/

/-- Of the rules with one name the last one, and no other, is marked. -/
theorem filter_withLast (rules : List LayerRule) (layer : String) :
    (withLast rules).filter (fun x => x.2 && x.1.name == layer) =
      ((lastNamed? rules layer).map fun r => (r, true)).toList := by
  induction rules with
  | nil => rfl
  | cons r rest ih =>
    have later : lastNamed? (r :: rest) layer =
        (lastNamed? rest layer).or ([r].find? fun s => s.name == layer) := by
      unfold lastNamed?
      rw [List.reverse_cons, List.find?_append]
    have marked : (rest.any fun s => s.name == layer) = (lastNamed? rest layer).isSome := by
      unfold lastNamed?
      rw [Bool.eq_iff_iff, List.any_eq_true, List.find?_isSome]
      simp only [List.mem_reverse]
    rw [withLast, List.filter_cons, ih, later]
    by_cases name : r.name = layer
    · subst name
      rw [marked]
      cases lastNamed? rest r.name <;> simp
    · have other : (r.name == layer) = false := beq_eq_false_iff_ne.2 name
      cases lastNamed? rest layer <;> simp [other]

/-- The files of a layer. -/
def filesOf (g : Graph) (rules : List LayerRule) (layer : String) : List String :=
  (g.nodes.filter fun n => layerOf? rules n.relative == some layer).map Node.relative

theorem mem_filesOf : relative ∈ filesOf g rules layer ↔
    (∃ n ∈ g.nodes, n.relative = relative) ∧ Belongs rules relative layer := by
  unfold filesOf
  rw [List.mem_map, ← layerOf?_eq_some_iff]
  constructor
  · rintro ⟨n, hn, rfl⟩
    rw [List.mem_filter, beq_iff_eq] at hn
    exact ⟨⟨n, hn.1, rfl⟩, hn.2⟩
  · rintro ⟨⟨n, hn, rfl⟩, h⟩
    exact ⟨n, List.mem_filter.2 ⟨hn, beq_iff_eq.2 h⟩, rfl⟩

theorem assigned_eq (g : Graph) (rules : List LayerRule) :
    assigned g rules = (withLast rules).map fun x =>
      { rule := x.1, files := if x.2 then filesOf g rules x.1.name else [] } :=
  rfl

/-- A listed file is a file of the graph that belongs to the layer. -/
theorem belongs_of_mem_files {l : Layer} (hl : l ∈ assigned g rules) (h : relative ∈ l.files) :
    (∃ n ∈ g.nodes, n.relative = relative) ∧ Belongs rules relative l.rule.name := by
  rw [assigned_eq] at hl
  obtain ⟨⟨rule, last⟩, -, rfl⟩ := List.mem_map.1 hl
  cases last with
  | false => cases h
  | true => exact mem_filesOf.1 h

/-- A file that belongs to a layer is listed in one place: with the last rule of the layer's
name. -/
theorem filter_assigned {n : Node} (hn : n ∈ g.nodes) (h : Belongs rules n.relative layer) :
    ∃ rule, IsLast rules rule ∧ rule.name = layer ∧
      (assigned g rules).filter (fun l => l.files.contains n.relative) =
        [{ rule, files := filesOf g rules layer }] := by
  obtain ⟨first, hfirst, -, rfl⟩ := h.exists_rule
  obtain ⟨rule, hrule⟩ := exists_lastNamed? hfirst
  obtain ⟨last, name⟩ := lastNamed?_eq_some_iff.1 hrule
  have listed : ((fun l : Layer => l.files.contains n.relative) ∘ fun x : LayerRule × Bool =>
      { rule := x.1, files := if x.2 then filesOf g rules x.1.name else [] }) =
      fun x => x.2 && x.1.name == first.name := by
    funext ⟨r, last⟩
    cases last with
    | false => rfl
    | true =>
      show (filesOf g rules r.name).contains n.relative = (true && r.name == first.name)
      rw [Bool.true_and, Bool.eq_iff_iff, List.contains_iff_mem, mem_filesOf, beq_iff_eq]
      constructor
      · rintro ⟨-, h'⟩
        exact h'.unique h
      · intro same
        exact ⟨⟨n, hn, rfl⟩, same ▸ h⟩
  refine ⟨rule, last, name, ?_⟩
  rw [assigned_eq, List.filter_map, listed, filter_withLast, hrule]
  show [({ rule, files := filesOf g rules rule.name } : Layer)] = _
  rw [name]

/-- The layer found for a path is the one that a file of the graph with that path belongs to. -/
theorem layerWith?_assigned : layerWith? (assigned g rules) relative = some layer ↔
    (∃ n ∈ g.nodes, n.relative = relative) ∧ Belongs rules relative layer := by
  unfold layerWith?
  rw [Option.map_eq_some_iff]
  constructor
  · rintro ⟨l, found, rfl⟩
    have listed : relative ∈ l.files := by simpa using List.find?_some found
    exact belongs_of_mem_files (List.mem_reverse.1 (List.mem_of_find?_eq_some found)) listed
  · rintro ⟨⟨n, hn, rfl⟩, h⟩
    obtain ⟨rule, -, name, only⟩ := filter_assigned hn h
    refine ⟨{ rule, files := filesOf g rules layer }, ?_, name⟩
    rw [← List.head?_filter, List.filter_reverse, only]
    rfl

theorem map_fst_withLast (rules : List LayerRule) : (withLast rules).map Prod.fst = rules := by
  induction rules with
  | nil => rfl
  | cons r rest ih => rw [withLast, List.map_cons, ih]

theorem map_rule_find?_assigned (g : Graph) (rules : List LayerRule) (layer : String) :
    ((assigned g rules).reverse.find? fun l => l.rule.name == layer).map Layer.rule =
      lastNamed? rules layer := by
  have rulesOf : (assigned g rules).map Layer.rule = rules := by
    rw [assigned_eq, List.map_map]
    exact map_fst_withLast rules
  calc
    _ = ((assigned g rules).reverse.map Layer.rule).find? (fun r => r.name == layer) := by
      rw [List.find?_map]
      rfl
    _ = lastNamed? rules layer := by rw [List.map_reverse, rulesOf, lastNamed?]

/-- A layer may import from itself and from what the last rule of its name lists. -/
theorem mayUse_assigned {other : String} (named : ∃ rule ∈ rules, rule.name = layer) :
    mayUse (assigned g rules) layer other = true ↔ other = layer ∨ Allows rules layer other := by
  obtain ⟨first, hfirst, rfl⟩ := named
  obtain ⟨rule, hrule⟩ := exists_lastNamed? hfirst
  have found := map_rule_find?_assigned g rules first.name
  rw [hrule, Option.map_eq_some_iff] at found
  obtain ⟨l, found, rfl⟩ := found
  unfold mayUse
  rw [found]
  simp only [Bool.or_eq_true, beq_iff_eq, List.contains_iff_mem]
  apply or_congr_right
  constructor
  · intro lists
    have last := lastNamed?_eq_some_iff.1 hrule
    exact ⟨l.rule, last.1, last.2, lists⟩
  · rintro ⟨r, last, name, lists⟩
    have same : some r = some l.rule := (lastNamed?_eq_some_iff.2 ⟨last, name⟩).symm.trans hrule
    exact Option.some.inj same ▸ lists

/-! ### Imports against the layers -/

/-- The import from a path, if it goes against the layers. -/
def violation? (g : Graph) (layers : List Layer) (n : Node) (source path : String) :
    Option Violation :=
  match layerWith? layers (g.relative path) with
  | none => none
  | some other =>
    if mayUse layers source other then none
    else some ⟨n.relative, g.relative path, source, other⟩

theorem violation?_eq_some_iff {layers : List Layer} {n : Node} {source path : String}
    {v : Violation} : violation? g layers n source path = some v ↔
      ∃ other, layerWith? layers (g.relative path) = some other ∧
        mayUse layers source other = false ∧ ⟨n.relative, g.relative path, source, other⟩ = v := by
  unfold violation?
  cases layerWith? layers (g.relative path) with
  | none => simp
  | some other => cases mayUse layers source other <;> simp

theorem violationsOf_eq (g : Graph) (layers : List Layer) (n : Node) :
    violationsOf g layers n = (layerWith? layers n.relative).toList.flatMap fun source =>
      n.links.targets.filterMap (violation? g layers n source) := by
  unfold violationsOf
  cases layerWith? layers n.relative with
  | none => rfl
  | some source => exact (List.append_nil _).symm

theorem mem_violationsOf {layers : List Layer} {n : Node} {v : Violation} :
    v ∈ violationsOf g layers n ↔ ∃ la, layerWith? layers n.relative = some la ∧
      ∃ path ∈ n.links.targets, ∃ lb, layerWith? layers (g.relative path) = some lb ∧
        mayUse layers la lb = false ∧ ⟨n.relative, g.relative path, la, lb⟩ = v := by
  rw [violationsOf_eq, List.mem_flatMap]
  simp only [Option.mem_toList, List.mem_filterMap, violation?_eq_some_iff]

theorem mem_violationsIn (placed : g.IsPlaced) {v : Violation} :
    v ∈ violationsIn g (assigned g rules) ↔ Against g rules v := by
  unfold violationsIn
  simp only [List.mem_flatMap, mem_violationsOf, layerWith?_assigned]
  constructor
  · rintro ⟨a, ha, la, ⟨-, source⟩, path, link, lb, ⟨⟨b, hb, seen⟩, target⟩, barred, rfl⟩
    -- The target is looked up by how it is seen from the root, and that tells its path.
    obtain rfl : b.path = path := by
      apply placed.path_eq (Graph.path_mem_places hb) (Graph.target_mem_places ha link)
      rw [← placed.seen b hb, seen, placed.relative_eq]
    rw [← seen] at target ⊢
    obtain ⟨rule, hrule, -, name⟩ := source.exists_rule
    rw [← Bool.not_eq_true, mayUse_assigned ⟨rule, hrule, name⟩, not_or] at barred
    exact .edge ha hb link source target barred.1 barred.2
  · rintro (@⟨a, b, la, lb, ha, hb, link, source, target, other, barred⟩)
    have seen : g.relative b.path = b.relative := placed.relative_node hb
    obtain ⟨rule, hrule, -, name⟩ := source.exists_rule
    refine ⟨a, ha, la, ⟨⟨a, ha, rfl⟩, source⟩, b.path, link, lb, ?_, ?_, ?_⟩
    · rw [seen]
      exact ⟨⟨b, hb, rfl⟩, target⟩
    · rw [← Bool.not_eq_true, mayUse_assigned ⟨rule, hrule, name⟩, not_or]
      exact ⟨other, barred⟩
    · rw [seen]

theorem nodup_violationsOf (placed : g.IsPlaced) (layers : List Layer) {n : Node}
    (hn : n ∈ g.nodes) : (violationsOf g layers n).Nodup := by
  have distinct : n.links.targets.Nodup := n.links.distinct
  rw [violationsOf_eq]
  cases layerWith? layers n.relative with
  | none => exact List.nodup_nil
  | some source =>
    show (n.links.targets.filterMap (violation? g layers n source) ++ []).Nodup
    rw [List.append_nil, List.Nodup, List.pairwise_filterMap]
    refine distinct.imp_of_mem ?_
    intro p q hp hq other v hv w hw same
    obtain ⟨_, -, -, rfl⟩ := violation?_eq_some_iff.1 hv
    obtain ⟨_, -, -, rfl⟩ := violation?_eq_some_iff.1 hw
    have target : g.relative p = g.relative q := congrArg Violation.target same
    rw [placed.relative_eq, placed.relative_eq] at target
    exact other (placed.path_eq (Graph.target_mem_places hn hp) (Graph.target_mem_places hn hq)
      target)

theorem nodup_violationsIn (placed : g.IsPlaced) (layers : List Layer) :
    (violationsIn g layers).Nodup := by
  unfold violationsIn
  rw [List.nodup_flatMap]
  refine ⟨fun n hn => nodup_violationsOf placed layers hn, ?_⟩
  have apart := placed.nodup_relative
  rw [List.Nodup, List.pairwise_map] at apart
  refine apart.imp ?_
  intro n m other v hn hm
  obtain ⟨_, -, _, -, _, -, -, rfl⟩ := mem_violationsOf.1 hn
  obtain ⟨_, -, _, -, _, -, -, same⟩ := mem_violationsOf.1 hm
  exact other (congrArg Violation.source same).symm

/-! ### The architecture -/

/-- A layer with the files that import from it and may not. -/
def charged (violations : List Violation) (l : Layer) : Layer :=
  { l with
    violatedBy :=
      (violations.filter fun v => v.targetLayer == l.rule.name).map Violation.source }

theorem layers_of (g : Graph) (rules : Option (List LayerRule)) :
    (of g rules).layers = ((assigned g (rules.getD usual)).filter fun l => !l.files.isEmpty).map
      (charged (of g rules).violations) :=
  rfl

/-- Leaving out the layers without files loses no layer of a file. -/
theorem filter_layers_of (g : Graph) (rules : Option (List LayerRule)) (relative : String) :
    (of g rules).layers.filter (fun l => l.files.contains relative) =
      ((assigned g (rules.getD usual)).filter fun l => l.files.contains relative).map
        (charged (of g rules).violations) := by
  rw [layers_of, List.filter_map, List.filter_filter]
  congr 1
  apply List.filter_congr
  intro l _
  show (l.files.contains relative && !l.files.isEmpty) = l.files.contains relative
  cases l.files <;> simp

theorem nodup_filesOf (placed : g.IsPlaced) (rules : List LayerRule) (layer : String) :
    (filesOf g rules layer).Nodup :=
  placed.nodup_relative.sublist (List.filter_sublist.map Node.relative)

/-- A file that belongs to a layer is listed in one returned layer. -/
theorem filter_layers_of_belongs {rules : Option (List LayerRule)} {n : Node} (hn : n ∈ g.nodes)
    (h : Belongs (rules.getD usual) n.relative layer) :
    ∃ l, (of g rules).layers.filter (fun l => l.files.contains n.relative) = [l] ∧
      IsLast (rules.getD usual) l.rule ∧ l.rule.name = layer ∧
      l.files = filesOf g (rules.getD usual) layer ∧
      l.violatedBy = ((of g rules).violations.filter fun v => v.targetLayer == layer).map
        Violation.source := by
  obtain ⟨rule, last, rfl, only⟩ := filter_assigned hn h
  refine ⟨charged (of g rules).violations
    { rule, files := filesOf g (rules.getD usual) rule.name }, ?_, last, rfl, rfl, rfl⟩
  rw [filter_layers_of, only]
  rfl

/-- **The architecture follows the layers.**  In a graph with its paths in normal form and equally
many slashes in front of them:
 * a file that belongs to a layer is listed once, in one returned layer, which is that of the last
   rule of the layer's name;
 * a file that no rule covers is listed in no returned layer;
 * no violation is there twice, and the violations are the imports from file to file that go
   against the layers, one for each of them since no two files look alike from the root;
 * the layer that a violation goes into is returned, with the violation's source among the files
   that import from it and may not. -/
theorem of_follows_layers (g : Graph) (rules : Option (List LayerRule))
    (placed : g.IsPlaced) :
    (∀ n ∈ g.nodes, ∀ layer, Belongs (rules.getD usual) n.relative layer →
      ∃ l, (of g rules).layers.filter (fun l => l.files.contains n.relative) = [l] ∧
        l.files.count n.relative = 1 ∧ l.rule.name = layer ∧ IsLast (rules.getD usual) l.rule) ∧
    (∀ n ∈ g.nodes, (∀ rule ∈ rules.getD usual, ¬ Covers rule n.relative) →
      (of g rules).layers.filter (fun l => l.files.contains n.relative) = []) ∧
    (of g rules).violations.Nodup ∧ (g.nodes.map Node.relative).Nodup ∧
    (∀ v, v ∈ (of g rules).violations ↔ Against g (rules.getD usual) v) ∧
    ∀ v ∈ (of g rules).violations, ∃ l ∈ (of g rules).layers,
      l.rule.name = v.targetLayer ∧ v.source ∈ l.violatedBy := by
  refine ⟨?_, ?_, nodup_violationsIn placed _, placed.nodup_relative,
    fun v => mem_violationsIn placed, ?_⟩
  · intro n hn layer h
    obtain ⟨l, only, last, name, files, -⟩ := filter_layers_of_belongs hn h
    refine ⟨l, only, ?_, name, last⟩
    rw [files]
    exact List.count_eq_one_of_mem (nodup_filesOf placed _ layer)
      (mem_filesOf.2 ⟨⟨n, hn, rfl⟩, h⟩)
  · intro n hn uncovered
    rw [filter_layers_of, List.map_eq_nil_iff, List.filter_eq_nil_iff]
    intro l hl listed
    have h := (belongs_of_mem_files hl (List.contains_iff_mem.1 listed)).2
    obtain ⟨rule, hrule, covers, -⟩ := h.exists_rule
    exact uncovered rule hrule covers
  · intro v hv
    obtain ⟨ha, hb, -, -, target, -, -⟩ := (mem_violationsIn placed).1 hv
    obtain ⟨l, only, -, name, -, charges⟩ := filter_layers_of_belongs hb target
    have returned : l ∈ (of g rules).layers := by
      apply List.mem_of_mem_filter
      rw [only]
      exact List.mem_singleton.2 rfl
    refine ⟨l, returned, name, ?_⟩
    rw [charges]
    exact List.mem_map.2 ⟨_, List.mem_filter.2 ⟨hv, beq_self_eq_true _⟩, rfl⟩

/-- A file of the domain that imports from a service and from outside, next to a file of no
layer. -/
def shop : Graph where
  root := "/shop"
  nodes :=
    [ { path := "/shop/domain/cart.ts"
        relative := "domain/cart.ts"
        links :=
          { internal := [("/shop/services/pay.ts", []), ("/vendor/services/pay.ts", [])]
            distinct := by decide } },
      { path := "/shop/services/pay.ts", relative := "services/pay.ts" },
      { path := "/shop/main.ts", relative := "main.ts" } ]

/-- Rules of which the last takes back what the first allows. -/
def shopRules : List LayerRule :=
  [ { name := "domain", paths := ["domain/**"], dependsOn := ["services"] },
    { name := "services", paths := ["services/**"] },
    { name := "domain", paths := ["services/**"] } ]

theorem isPlaced_shop : shop.IsPlaced where
  once := by decide +kernel
  normal := by decide +kernel
  front := by decide +kernel
  seen := by decide +kernel

theorem of_follows_layers_shop :
    shop.IsPlaced ∧ Belongs shopRules "services/pay.ts" "services" ∧
      Against shop shopRules ⟨"domain/cart.ts", "services/pay.ts", "domain", "services"⟩ ∧
      ∃ l ∈ (of shop (some shopRules)).layers,
        l.rule.name = "services" ∧ "domain/cart.ts" ∈ l.violatedBy := by
  obtain ⟨-, -, -, -, violations, charges⟩ :=
    of_follows_layers shop (some shopRules) isPlaced_shop
  have found : ⟨"domain/cart.ts", "services/pay.ts", "domain", "services"⟩ ∈
      (of shop (some shopRules)).violations := by decide +kernel
  refine ⟨isPlaced_shop, ?_, (violations _).1 found, charges _ found⟩
  rw [← layerOf?_eq_some_iff]
  decide +kernel

/-- Two files of the domain that import from a path with two slashes in front.  The first of them
also imports from the service that the path looks like. -/
def twofold : Graph where
  root := "/shop"
  nodes :=
    [ { path := "/shop/domain/cart.ts"
        relative := "domain/cart.ts"
        links :=
          { internal := [("/shop/services/pay.ts", []), ("//shop/services/pay.ts", [])]
            distinct := by decide } },
      { path := "/shop/domain/bill.ts"
        relative := "domain/bill.ts"
        links := { internal := [("//shop/services/pay.ts", [])], distinct := by decide } },
      { path := "/shop/services/pay.ts", relative := "services/pay.ts" } ]

theorem isSeen_twofold : twofold.IsSeen where
  once := by decide +kernel
  normal := by decide +kernel
  seen := by decide +kernel

theorem Against.exists_link {v : Violation} (h : Against g rules v) :
    ∃ a ∈ g.nodes, ∃ b ∈ g.nodes, a.relative = v.source ∧ b.path ∈ a.links.targets := by
  obtain ⟨ha, hb, link, -, -, -, -⟩ := h
  exact ⟨_, ha, _, hb, rfl, link⟩

/-- With two slashes in front of an import the architecture does not follow the layers: the import
of `domain/cart.ts` is reported twice, and that of `domain/bill.ts`, which goes to no file of the
graph, is reported too. -/
theorem violations_of_twofold :
    twofold.IsSeen ∧ ¬ (of twofold (some shopRules)).violations.Nodup ∧
      ∃ v ∈ (of twofold (some shopRules)).violations, ¬ Against twofold shopRules v := by
  have elsewhere : ∀ a ∈ twofold.nodes, ∀ b ∈ twofold.nodes,
      a.relative = "domain/bill.ts" → b.path ∉ a.links.targets := by decide +kernel
  refine ⟨isSeen_twofold, by decide +kernel,
    ⟨"domain/bill.ts", "services/pay.ts", "domain", "services"⟩, by decide +kernel, ?_⟩
  intro h
  obtain ⟨a, ha, b, hb, source, link⟩ := h.exists_link
  exact elsewhere a ha b hb source link

end Architecture

end ModuleAtlas
