/-
ModuleAtlas/Proofs/StarClosure.lean

An expansion of star exports leaves nothing to expand.

A file offers a name if it has an export of that name which is not the default one: these are
the names that a star export of another file can take.  Each file is expanded for itself, and on
the way to its star exports the files it has come through are closed to it.  So what a file takes
from another one need not be all that the other one takes in its own expansion.  Yet the two agree
on names: in the expanded graph a file offers exactly what the files offered that its star
exports reach (`offers_expandStars_iff`), and this no longer depends on what was visited.

From there on only reachability counts.  The expanded graph is closed: a file has each name that
a file behind one of its star exports offers (`starClosed_expandStars`).  A closed graph stays as it
is (`StarClosed.visibleExports_eq`).  Main results: `supplier_offers_added`, that what was added to
a file is offered where its record points to, and `expandStars_idempotent`.
-/
import ModuleAtlas.Analysis.Flow
import ModuleAtlas.Proofs.StarNames

namespace ModuleAtlas.Graph

variable {g : Graph} {stars : Stars} {path m : String} {n : Node} {e : Export}
variable {visited visited' : List String} {all found : List Export}

/-! ### Names that star exports can take -/

/-- The exports of the graph that are marked as default ones are those of the default name. -/
def Flagged (g : Graph) : Prop :=
  ∀ k ∈ g.nodes, ∀ e ∈ k.exports, e.isDefault = true ↔ e.name = defaultName

/-- A file of the graph has an export of the name that is not the default one. -/
def Offers (g : Graph) (path m : String) : Prop :=
  ∃ n e, g.node? path = some n ∧ e ∈ n.exports ∧ e.name = m ∧ e.isDefault = false

theorem Offers.owns (h : Offers g path m) : Owns g path m := by
  obtain ⟨n, e, node, he, name, -⟩ := h
  exact ⟨n, node, List.mem_map.2 ⟨e, he, name⟩⟩

theorem Flagged.isDefault_eq_false (flagged : g.Flagged) (node : g.node? path = some n)
    (he : e ∈ n.exports) (other : e.name ≠ defaultName) : e.isDefault = false := by
  rw [Bool.eq_false_iff]
  intro flag
  exact other ((flagged n (List.mem_of_find?_eq_some node) e he).1 flag)

theorem Flagged.ne_defaultName (flagged : g.Flagged) (h : Offers g path m) : m ≠ defaultName := by
  obtain ⟨n, e, node, he, rfl, plain⟩ := h
  intro name
  have flag := (flagged n (List.mem_of_find?_eq_some node) e he).2 name
  rw [plain] at flag
  cases flag

/-! ### Where an export that is seen comes from -/

/-- An export that is seen, and is not a default one, was there before, or its name is offered by
a file that star exports reach. -/
theorem Sees.exists_offers {t : Task} (h : Sees g stars t visited all visited') (he : e ∈ all)
    (plain : e.isDefault = false) :
    e ∈ t.found ∨ ∃ r x, t.Root r ∧ StarReach g stars r x ∧ Offers g x e.name := by
  induction h generalizing e with
  | seen | missing => cases he
  | done => exact .inl he
  | @node path n visited all visited' _ some _ ih =>
    right
    rcases ih he plain with own | ⟨r, x, ⟨s, hs, target⟩, reach, offers⟩
    · exact ⟨path, path, rfl, .refl, n, e, some, own, rfl, plain⟩
    · exact ⟨path, x, rfl, .head ⟨n, s, some, hs, target⟩ reach, offers⟩
  | skip _ _ ih =>
    rcases ih he plain with there | ⟨r, x, ⟨s, hs, target⟩, way⟩
    · exact .inl there
    · exact .inr ⟨r, x, ⟨s, List.mem_cons_of_mem _ hs, target⟩, way⟩
  | @star n s rest found visited target more visited₁ all visited' some _ _ ih₁ ih₂ =>
    rcases ih₂ he plain with there | ⟨r, x, ⟨s', hs', target'⟩, way⟩
    · -- it was there before this star export, or this star export gave it
      rcases mem_foldl_addThroughStar there with there | ⟨o, ho, plain', rfl⟩
      · exact .inl there
      · rcases ih₁ ho plain' with none | ⟨r, x, rfl, way⟩
        · cases none
        · exact .inr ⟨r, x, ⟨s, List.mem_cons_self, some⟩, way⟩
    · exact .inr ⟨r, x, ⟨s', List.mem_cons_of_mem _ hs', target'⟩, way⟩

/-- What a node gets through its star exports points to one of them, and from the file behind
that one a file is reached which offers the name. -/
theorem Sees.exists_supplied {specifiers : List String}
    (h : Sees g stars (.through n specifiers found) visited all visited') (he : e ∈ all) :
    e ∈ found ∨ ∃ s ∈ specifiers, ∃ target x, n.links.supplier? (isOf s) = some target ∧
      e.source = some s ∧ StarReach g stars target x ∧ Offers g x e.name := by
  induction specifiers generalizing found visited with
  | nil =>
    cases h with
    | done => exact .inl he
  | cons s rest ih =>
    cases h with
    | skip _ h =>
      rcases ih h with there | ⟨s', hs', way⟩
      exacts [.inl there, .inr ⟨s', List.mem_cons_of_mem _ hs', way⟩]
    | @star _ _ _ _ _ target more visited₁ _ _ some h₁ h₂ =>
      rcases ih h₂ with there | ⟨s', hs', way⟩
      · rcases mem_foldl_addThroughStar there with there | ⟨o, ho, plain, rfl⟩
        · exact .inl there
        · rcases h₁.exists_offers ho plain with none | ⟨r, x, rfl, reach, offers⟩
          · cases none
          · exact .inr ⟨s, List.mem_cons_self, r, x, some, rfl, reach, offers⟩
      · exact .inr ⟨s', List.mem_cons_of_mem _ hs', way⟩

/-- What is seen from a file is what it exports itself, and behind it what is added under names
that are free, each through one of its star exports. -/
theorem exists_added (stars : Stars) (node : g.node? path = some n) :
    ∃ added, visibleExports g stars path = n.exports ++ added ∧
      ∀ e ∈ added, e.name ∉ n.exports.map Export.name ∧
        ∃ s ∈ starsOf stars path, ∃ target x, n.links.supplier? (isOf s) = some target ∧
          e.source = some s ∧ StarReach g stars target x ∧ Offers g x e.name := by
  obtain ⟨visited, sees⟩ := sees_through node stars
  obtain ⟨added, eq, -, -, free⟩ := sees.extends
  refine ⟨added, eq, fun e he => ⟨free e he, ?_⟩⟩
  have there : e ∈ visibleExports g stars path := by
    rw [eq]
    exact List.mem_append_right _ he
  apply (sees.exists_supplied there).resolve_left
  intro own
  exact free e he (List.mem_map.2 ⟨e, own, rfl⟩)

/-! ### What the files of the expanded graph offer -/

/-- A file from which star exports reach one that offers a name is a file of the graph. -/
theorem exists_node?_of_starReach {q : String} (reach : StarReach g stars path q)
    (offers : Offers g q m) : ∃ n, g.node? path = some n := by
  rcases reach.cases_head with rfl | ⟨_, ⟨n, _, node, _⟩, _⟩
  · obtain ⟨n, -, node, -⟩ := offers
    exact ⟨n, node⟩
  · exact ⟨n, node⟩

/-- **What a file offers in the end**: the names that the files offer which its star exports
reach. -/
theorem offers_expandStars_iff (flagged : g.Flagged) :
    Offers (g.expandStars stars) path m ↔ ∃ q, StarReach g stars path q ∧ Offers g q m := by
  obtain ⟨visited, sees⟩ := sees_visibleExports g stars path
  constructor
  · rintro ⟨k, e, expanded, he, rfl, plain⟩
    obtain ⟨n, -, rfl⟩ := exists_node?_of_expandStars expanded
    rcases sees.exists_offers he plain with none | ⟨r, x, rfl, way⟩
    · cases none
    · exact ⟨x, way⟩
  · rintro ⟨q, reach, offers⟩
    obtain ⟨n, node⟩ := exists_node?_of_starReach reach offers
    have other : m ≠ defaultName := flagged.ne_defaultName offers
    -- no file has the name as its default one, so no file hides it from the others
    have plain : ∀ x k, g.node? x = some k → ∀ e ∈ k.exports, e.name = m → e.isDefault = false :=
      fun x k node e he name => flagged.isDefault_eq_false node he (name ▸ other)
    have seen : m ∈ (visibleExports g stars path).map Export.name :=
      (mem_names_visibleExports_iff node fun x k _ => plain x k).2 ⟨q, reach, offers.owns⟩
    have flags := (sees.mem_names_iff (fun x k _ _ => plain x k) (by simp [Task.found])).2
    obtain ⟨e, he, name⟩ := List.mem_map.1 seen
    exact ⟨_, e, node?_expandStars node, he, name, flags e he name⟩

/-- Star exports lead in the expanded graph where they led before. -/
theorem starTo_expandStars {a b : String} :
    StarTo (g.expandStars stars) stars a b ↔ StarTo g stars a b := by
  constructor
  · rintro ⟨k, s, expanded, hs, target⟩
    obtain ⟨n, node, rfl⟩ := exists_node?_of_expandStars expanded
    exact ⟨n, s, node, hs, target⟩
  · rintro ⟨n, s, node, hs, target⟩
    exact ⟨_, s, node?_expandStars node, hs, target⟩

/-- **No record without a supplier.**  After the expansion a file exports what it exported itself
and behind it what was added; and the file that the record of an added export points to is one of
the graph that, in the end, has an export of that name which is not the default one. -/
theorem supplier_offers_added (g : Graph) (stars : Stars) (flagged : g.Flagged)
    {path : String} {n : Node} (node : g.node? path = some n) :
    ∃ added,
      (g.expandStars stars).node? path = some { n with exports := n.exports ++ added } ∧
      ∀ e ∈ added, ∃ target,
        Flow.supplier? { n with exports := n.exports ++ added } e = some target ∧
        Offers (g.expandStars stars) target e.name := by
  obtain ⟨added, eq, supplied⟩ := exists_added stars node
  refine ⟨added, by rw [node?_expandStars node, eq], ?_⟩
  intro e he
  obtain ⟨-, s, -, target, x, supplier, source, reach, offers⟩ := supplied e he
  refine ⟨target, ?_, (offers_expandStars_iff flagged).2 ⟨x, reach, offers⟩⟩
  unfold Flow.supplier?
  rw [source]
  exact supplier

theorem flagged_diamond : diamond.Flagged := by
  unfold Flagged
  decide

theorem names_right_diamond :
    ((diamond.expandStars diamondStars).node? "/right").map (fun k => k.exports.map Export.name)
      = some ["own", "x"] := by
  decide +kernel

/-- The file that leads back gets a name from the file that leads to it, which has the name in the
end from a third one. -/
theorem supplier_offers_added_diamond :
    diamond.Flagged ∧
      ∃ n added, diamond.node? "/right" = some n ∧
        (diamond.expandStars diamondStars).node? "/right"
          = some { n with exports := n.exports ++ added } ∧
        added.map Export.name = ["own", "x"] ∧
        ∀ e ∈ added, ∃ target,
          Flow.supplier? { n with exports := n.exports ++ added } e = some target ∧
          Offers (diamond.expandStars diamondStars) target e.name := by
  have node : diamond.node? "/right" = some _ := rfl
  obtain ⟨added, eq, supplied⟩ := supplier_offers_added diamond diamondStars flagged_diamond node
  refine ⟨flagged_diamond, _, added, node, eq, ?_, supplied⟩
  have names := names_right_diamond
  rw [eq] at names
  exact Option.some.inj names

/-! ### Closed graphs -/

/-- Each file of the graph has the names that the files behind its star exports offer. -/
def StarClosed (g : Graph) (stars : Stars) : Prop :=
  ∀ a b m, StarTo g stars a b → Offers g b m → Offers g a m

theorem starClosed_expandStars (flagged : g.Flagged) (stars : Stars) :
    StarClosed (g.expandStars stars) stars := by
  intro a b m star offers
  rw [starTo_expandStars] at star
  obtain ⟨q, reach, own⟩ := (offers_expandStars_iff flagged).1 offers
  exact (offers_expandStars_iff flagged).2 ⟨q, .head star reach, own⟩

/-- In a closed graph a file offers what any file offers that its star exports reach. -/
theorem StarClosed.offers (closed : StarClosed g stars) {q : String}
    (reach : StarReach g stars path q) (offers : Offers g q m) : Offers g path m := by
  induction reach using Relation.ReflTransGen.head_induction_on with
  | refl => exact offers
  | head step _ ih => exact closed _ _ m step ih

/-- From a file of a closed graph nothing is seen but what it exports itself. -/
theorem StarClosed.visibleExports_eq (closed : StarClosed g stars) (node : g.node? path = some n) :
    visibleExports g stars path = n.exports := by
  obtain ⟨added, eq, supplied⟩ := exists_added stars node
  suffices none : added = [] by rw [eq, none, List.append_nil]
  rw [List.eq_nil_iff_forall_not_mem]
  intro e he
  obtain ⟨free, s, hs, target, x, supplier, -, reach, offers⟩ := supplied e he
  -- an export that was added has a name that was free, but a closed file has that name
  apply free
  have star : StarTo g stars path target := ⟨n, s, node, hs, supplier⟩
  obtain ⟨n', node', own⟩ := (closed.offers (.head star reach) offers).owns
  obtain rfl := Option.some.inj (node.symm.trans node')
  exact own

/-- A graph from whose files nothing is seen but their own exports is expanded already. -/
theorem expandStars_eq_self (same : ∀ k ∈ g.nodes, (stars.any fun s => s.1 == k.path) = true →
    visibleExports g stars k.path = k.exports) : g.expandStars stars = g := by
  have nodes : (g.expandStars stars).nodes = g.nodes.map id := by
    apply List.map_congr_left
    intro k hk
    split
    · next starred =>
      rw [same k hk starred]
      rfl
    · rfl
  rw [List.map_id] at nodes
  show Graph.mk g.root (g.expandStars stars).nodes = g
  rw [nodes]

/-- The exports of a node of the expanded graph are what is seen from its path. -/
theorem exports_of_mem_expandStars {k : Node} (hk : k ∈ (g.expandStars stars).nodes)
    (starred : (stars.any fun s => s.1 == k.path) = true) :
    k.exports = visibleExports g stars k.path ∧ ∃ n, g.node? k.path = some n := by
  obtain ⟨n, hn, rfl⟩ := List.mem_map.1 hk
  have keeps : ∀ n : Node, (if stars.any fun s => s.1 == n.path
      then { n with exports := visibleExports g stars n.path } else n).path = n.path := by
    intro n
    split <;> rfl
  rw [keeps] at starred ⊢
  rw [if_pos starred]
  exact ⟨rfl, exists_node?_of_has (has_of_mem hn)⟩

/-- **An expansion leaves nothing to expand**: in the expanded graph each file has the names that
the files behind its star exports offer, and a second expansion by the same star exports gives the
same graph. -/
theorem expandStars_idempotent (g : Graph) (stars : Stars) (flagged : g.Flagged) :
    StarClosed (g.expandStars stars) stars ∧
      (g.expandStars stars).expandStars stars = g.expandStars stars := by
  have closed := starClosed_expandStars flagged stars
  refine ⟨closed, expandStars_eq_self ?_⟩
  intro k hk starred
  -- the node need not be the first of its path, but what is seen from both is the same
  obtain ⟨exports, n, node⟩ := exports_of_mem_expandStars hk starred
  rw [exports]
  exact closed.visibleExports_eq (node?_expandStars node)

/-- Where star exports lead in a circle, the first expansion gives each file names of the others,
and the second gives none. -/
theorem expandStars_idempotent_diamond :
    diamond.Flagged ∧ diamond.expandStars diamondStars ≠ diamond ∧
      (diamond.expandStars diamondStars).expandStars diamondStars
        = diamond.expandStars diamondStars := by
  refine ⟨flagged_diamond, ?_, (expandStars_idempotent diamond diamondStars flagged_diamond).2⟩
  intro same
  have names := names_right_diamond
  rw [same] at names
  exact absurd names (by decide +kernel)

end ModuleAtlas.Graph
