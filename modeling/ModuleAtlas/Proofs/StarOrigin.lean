/-
ModuleAtlas/Proofs/StarOrigin.lean

Where a name that came through star exports is traced to.

Every file is expanded for itself, from no file visited, and the record of a name then
points to one star export.  `Sees.find?_eq` says to which: to the first from which a
file that exports the name itself can be reached without coming back through the file
that is expanded.  A trace follows these records from file to file, and nothing makes
them lead closer to a definition.  Two files that name each other first and a third one
after that, which has the definition, point to each other (`origin_lost_in_barrels`).

`origin_through_star` says how far the trace can be trusted.  What it finds is a file
that star exports reach and that defines the name; and it finds none exactly where the
records lead in a circle, or to a file that lost the name behind a default of that name.
-/
import ModuleAtlas.Proofs.Origin
import ModuleAtlas.Proofs.StarNames

namespace ModuleAtlas.Graph

variable {g : Graph} {stars : Stars} {n : Node} {m : String}
variable {visited visited' : List String} {all found : List Export}

/-- There is a first export of a name that is among the names. -/
theorem exists_find?_of_mem_names {exports : List Export} (h : m ∈ exports.map Export.name) :
    ∃ e, (exports.find? fun e => e.name == m) = some e ∧ e.name = m := by
  obtain ⟨e, he, rfl⟩ := List.mem_map.1 h
  obtain ⟨e', first⟩ := Option.isSome_iff_exists.1
    (List.find?_isSome (p := fun x : Export => x.name == e.name) |>.2 ⟨e, he, by simp⟩)
  exact ⟨e', first, by simpa using List.find?_some first⟩

/-! ### The star export that a record points to -/

/-- Star exports lead from a file, past the files visited before, to one that exports
the name itself. -/
def Leads (g : Graph) (stars : Stars) (visited : List String) (m q : String) : Prop :=
  ∃ x, Avoiding g stars visited q x ∧ Owns g x m

open Classical in
/-- The file of the first of some star exports of a node that leads to the name. -/
noncomputable def firstLeading (g : Graph) (stars : Stars) (visited : List String) (m : String)
    (n : Node) (specifiers : List String) : Option String :=
  specifiers.findSome? fun s =>
    (n.links.supplier? (isOf s)).filter fun q => decide (Leads g stars visited m q)

theorem firstLeading_cons_of_none {s : String} (rest : List String)
    (none : n.links.supplier? (isOf s) = none) :
    firstLeading g stars visited m n (s :: rest) = firstLeading g stars visited m n rest := by
  unfold firstLeading
  rw [List.findSome?_cons, none]
  rfl

theorem firstLeading_cons_of_leads {s q : String} (rest : List String)
    (some : n.links.supplier? (isOf s) = some q) (leads : Leads g stars visited m q) :
    firstLeading g stars visited m n (s :: rest) = .some q := by
  unfold firstLeading
  rw [List.findSome?_cons, some]
  simp [Option.filter, leads]

theorem firstLeading_cons_of_not_leads {s q : String} (rest : List String)
    (some : n.links.supplier? (isOf s) = some q) (leads : ¬ Leads g stars visited m q) :
    firstLeading g stars visited m n (s :: rest) = firstLeading g stars visited m n rest := by
  unfold firstLeading
  rw [List.findSome?_cons, some]
  simp [Option.filter, leads]

theorem leads_of_firstLeading {specifiers : List String} {q : String}
    (h : firstLeading g stars visited m n specifiers = some q) : Leads g stars visited m q := by
  obtain ⟨s, -, eq⟩ := List.exists_of_findSome?_eq_some h
  simpa using (Option.filter_eq_some_iff.1 eq).2

/-- A way that ends outside of what was visited meanwhile never came there. -/
theorem Sees.avoiding_of_notMem {t : Task} (h : Sees g stars t visited all visited')
    {a x : String} (way : Avoiding g stars visited a x) (hx : x ∉ visited') :
    Avoiding g stars visited' a x := by
  obtain ⟨new, way⟩ := way
  induction way using Relation.ReflTransGen.head_induction_on with
  | refl => exact ⟨hx, .refl⟩
  | @head a b step rest ih =>
    obtain ⟨new', rest'⟩ := ih step.2
    refine ⟨fun ha => hx ?_, .head ⟨step.1, new'⟩ rest'⟩
    exact h.mem_of_avoiding ha ⟨new, .head step rest⟩

/-- A visit that does not lead to the name does not change what leads to it. -/
theorem Sees.leads_iff {path q : String} (h : Sees g stars (.file path) visited all visited')
    (lost : ¬ Leads g stars visited m path) :
    Leads g stars visited' m q ↔ Leads g stars visited m q := by
  constructor
  · rintro ⟨x, way, owns⟩
    exact ⟨x, way.mono h.subset, owns⟩
  · rintro ⟨x, way, owns⟩
    refine ⟨x, h.avoiding_of_notMem way fun hx => lost ?_, owns⟩
    obtain ⟨r, rfl, way'⟩ := h.exists_avoiding hx way.notMem
    exact ⟨x, way', owns⟩

/-- A name is seen from a file if star exports lead from there to it. -/
theorem Sees.mem_names_iff_leads {path : String}
    (h : Sees g stars (.file path) visited all visited')
    (plain : PlainBetween g visited visited' m) :
    m ∈ all.map Export.name ↔ Leads g stars visited m path := by
  rw [(h.mem_names_iff plain (by simp [Task.found])).1]
  constructor
  · rintro (none | ⟨x, hx, new, owns⟩)
    · cases none
    · obtain ⟨r, rfl, way⟩ := h.mem_visited_iff.1 ⟨hx, new⟩
      exact ⟨x, way, owns⟩
  · rintro ⟨x, way, owns⟩
    obtain ⟨hx, new⟩ := h.mem_visited_iff.2 ⟨path, rfl, way⟩
    exact .inr ⟨x, hx, new, owns⟩

/-- **The record of a name** that is seen through star exports is that of the first star
export which leads to the name; there is none if none leads to it. -/
theorem Sees.find?_eq {specifiers : List String}
    (h : Sees g stars (.through n specifiers found) visited all visited')
    (plain : PlainBetween g visited visited' m) (free : m ∉ found.map Export.name) :
    (firstLeading g stars visited m n specifiers = none ∧ m ∉ all.map Export.name) ∨
      ∃ s q o, firstLeading g stars visited m n specifiers = some q ∧
        n.links.supplier? (isOf s) = some q ∧ o.name = m ∧
        (all.find? fun e => e.name == m) = some (throughStar n s o) := by
  -- the star exports are taken in turn, each with more files visited than the one before
  induction specifiers generalizing found visited with
  | nil =>
    cases h with
    | done => exact .inl ⟨rfl, free⟩
  | cons s rest ih =>
    cases h with
    | skip none h =>
      rw [firstLeading_cons_of_none rest none]
      exact ih h plain free
    | @star _ _ _ _ _ target more visited₁ _ _ some h₁ h₂ =>
      have plain₁ : PlainBetween g visited visited₁ m :=
        fun x k hx new => plain x k (h₂.subset hx) new
      by_cases leads : Leads g stars visited m target
      · -- this star export gives the name, and what comes behind it cannot take its place
        right
        have seen := (h₁.mem_names_iff_leads plain₁).2 leads
        have flags := (h₁.mem_names_iff plain₁ (by simp [Task.found])).2
        obtain ⟨o', ho', name'⟩ := List.mem_map.1 seen
        have there : m ∈ (more.foldl (addThroughStar n s) found).map Export.name :=
          mem_names_foldl_addThroughStar.2 (.inr ⟨o', ho', name', flags o' ho' name'⟩)
        obtain ⟨e, first, name⟩ := exists_find?_of_mem_names there
        rcases mem_foldl_addThroughStar (List.mem_of_find?_eq_some first) with own | ⟨o, -, -, rfl⟩
        · exact absurd (List.mem_map.2 ⟨e, own, name⟩) free
        · obtain ⟨added, eq, -⟩ := h₂.extends
          refine ⟨s, target, o, firstLeading_cons_of_leads rest some leads, some, name, ?_⟩
          rw [eq, List.find?_append, first]
          rfl
      · -- this star export does not, and the files visited for it do not matter for the rest
        have plain₂ : PlainBetween g visited₁ visited' m :=
          fun x k hx new => plain x k hx fun old => new (h₁.subset old)
        have free₂ : m ∉ (more.foldl (addThroughStar n s) found).map Export.name := by
          intro there
          rcases mem_names_foldl_addThroughStar.1 there with there | ⟨o, ho, rfl, -⟩
          · exact free there
          · exact leads ((h₁.mem_names_iff_leads plain₁).1 (List.mem_map.2 ⟨o, ho, rfl⟩))
        have same : firstLeading g stars visited₁ m n rest
            = firstLeading g stars visited m n rest := by
          have eq : Leads g stars visited₁ m = Leads g stars visited m :=
            funext fun q => propext (h₁.leads_iff leads)
          unfold firstLeading
          rw [eq]
        rw [firstLeading_cons_of_not_leads rest some leads, ← same]
        exact ih h₂ plain₂ free₂

/-! ### Records of the expanded graph -/

/-- All exports of the name by files that star exports reach have a property. -/
def OwnRecords (g : Graph) (stars : Stars) (path m : String) (p : Export → Prop) : Prop :=
  ∀ q n, StarReach g stars path q → g.node? q = some n → ∀ e ∈ n.exports, e.name = m → p e

theorem OwnRecords.of_starReach {p : Export → Prop} {a b : String}
    (h : OwnRecords g stars a m p) (reach : StarReach g stars a b) : OwnRecords g stars b m p :=
  fun q n more => h q n (reach.trans more)

/-- The record of a name in the expanded graph is one of the file itself, or the file has
none and it came through one of its star exports. -/
theorem find?_visibleExports_cases {path : String} {e : Export} (node : g.node? path = some n)
    (first : ((visibleExports g stars path).find? fun e => e.name == m) = some e) :
    (e ∈ n.exports ∧ e.name = m) ∨
      m ∉ n.exports.map Export.name ∧ ∃ s ∈ starsOf stars path, ∃ q o,
        n.links.supplier? (isOf s) = some q ∧ o.name = m ∧ e = throughStar n s o := by
  obtain ⟨visited, h⟩ := sees_through node stars
  have name : e.name = m := by simpa using List.find?_some first
  rcases h.mem_cases (List.mem_of_find?_eq_some first) with own | ⟨s, hs, q, o, target, rfl⟩
  · exact .inl ⟨own, name⟩
  · by_cases owns : m ∈ n.exports.map Export.name
    · -- an own record stands in front of all that came through star exports
      left
      obtain ⟨added, eq, -⟩ := h.extends
      obtain ⟨e', own, -⟩ := exists_find?_of_mem_names owns
      rw [eq, List.find?_append, own] at first
      obtain rfl := Option.some.inj first
      exact ⟨List.mem_of_find?_eq_some own, name⟩
    · exact .inr ⟨owns, s, hs, q, o, target, name, rfl⟩

/-- The name that a record through a star export looks for is its own. -/
theorem lookupName_throughStar (n : Node) (s : String) (o : Export) :
    (throughStar n s o).lookupName = o.name := by
  simp [throughStar, Export.lookupName]

end ModuleAtlas.Graph

namespace ModuleAtlas.Flow

open ModuleAtlas.Graph Relation

variable {g : Graph} {stars : Stars} {n : Node} {m a b : String}

/-! ### Files of the expanded graph that pass a name on -/

/-- The record of a name in the expanded graph is a definition of the file itself, or the
file has none and it is a re-export of the same name from one of its star exports. -/
theorem record_cases (defined : OwnRecords g stars a m fun e => e.isReexport = false)
    {k : Node} {e : Export} (expanded : (g.expandStars stars).node? a = some k)
    (first : k.export? m = some e) :
    (Owns g a m ∧ e.isReexport = false) ∨
      ¬ Owns g a m ∧ e.isReexport = true ∧ e.isNamespace = false ∧ e.lookupName = m ∧
        ∃ b, StarTo g stars a b ∧ supplier? k e = some b := by
  obtain ⟨n, node, rfl⟩ := exists_node?_of_expandStars expanded
  rcases find?_visibleExports_cases node first with
    ⟨own, name⟩ | ⟨new, s, hs, b, o, target, name, rfl⟩
  · left
    exact ⟨⟨n, node, List.mem_map.2 ⟨e, own, name⟩⟩, defined a n .refl node e own name⟩
  · right
    refine ⟨?_, rfl, rfl, (lookupName_throughStar n s o).trans name, b, ?_, target⟩
    · rintro ⟨n', node', own⟩
      obtain rfl := Option.some.inj (node.symm.trans node')
      exact new own
    · exact ⟨n, s, node, hs, target⟩

theorem straight_expandStars (defined : OwnRecords g stars a m fun e => e.isReexport = false) :
    Straight (g.expandStars stars) m a := by
  intro k e node first reexport
  rcases record_cases defined node first with ⟨-, definition⟩ | ⟨-, -, named, same, -⟩
  · rw [definition] at reexport
    cases reexport
  · exact ⟨named, same⟩

theorem Relays.starTo (defined : OwnRecords g stars a m fun e => e.isReexport = false)
    (h : Relays (g.expandStars stars) m a b) : StarTo g stars a b ∧ ¬ Owns g a m := by
  obtain ⟨k, e, node, first, reexport, -, -, next⟩ := h
  rcases record_cases defined node first with ⟨-, definition⟩ | ⟨new, -, -, -, b', star, next'⟩
  · rw [definition] at reexport
    cases reexport
  · obtain rfl := Option.some.inj (next.symm.trans next')
    exact ⟨star, new⟩

/-- Only a file that exports the name itself defines it. -/
theorem Defines.owns (defined : OwnRecords g stars a m fun e => e.isReexport = false)
    (h : Defines (g.expandStars stars) m a) : Owns g a m := by
  obtain ⟨k, e, node, first, definition⟩ := h
  rcases record_cases defined node first with ⟨own, -⟩ | ⟨-, reexport, -⟩
  · exact own
  · rw [definition] at reexport
    cases reexport

/-- A file that has the name in the expanded graph defines it or passes it on. -/
theorem not_stuck_of_owns (defined : OwnRecords g stars a m fun e => e.isReexport = false)
    (h : Owns (g.expandStars stars) a m) : ¬ Stuck (g.expandStars stars) m a := by
  rintro ⟨undefined, none⟩
  obtain ⟨k, node, there⟩ := h
  obtain ⟨e, first, -⟩ := exists_find?_of_mem_names there
  rcases record_cases defined node first with
    ⟨-, definition⟩ | ⟨-, reexport, named, same, b, -, next⟩
  · exact undefined ⟨k, e, node, first, definition⟩
  · exact none b ⟨k, e, node, first, reexport, named, same, next⟩

theorem starReach_of_relays (defined : OwnRecords g stars a m fun e => e.isReexport = false)
    (way : ReflTransGen (Relays (g.expandStars stars) m) a b) : StarReach g stars a b := by
  induction way with
  | refl => exact .refl
  | tail _ step ih => exact ih.tail (Relays.starTo (defined.of_starReach ih) step).1

/-! ### Files that hand a name on -/

/-- A file that does not export the name itself hands it on to the first of its star
exports that leads to the name without coming back. -/
def HandsOn (g : Graph) (stars : Stars) (m a b : String) : Prop :=
  ∃ n, g.node? a = some n ∧ m ∉ n.exports.map Export.name ∧
    firstLeading g stars [a] m n (starsOf stars a) = some b

/-- No file that is visited for the star exports of a file has a default of the name if
none has that they reach. -/
theorem plainBetween_of_ownRecords {visited : List String} {found all : List Export}
    (plain : OwnRecords g stars a m fun e => e.isDefault = false) (node : g.node? a = some n)
    (h : Sees g stars (.through n (starsOf stars a) found) [a] all visited) :
    PlainBetween g [a] visited m := by
  intro x k hx new
  obtain ⟨r, ⟨s, hs, target⟩, way⟩ := h.exists_avoiding hx new
  exact plain x k (.head ⟨n, s, node, hs, target⟩ way.starReach)

/-- **The records of the expanded graph** pass a name on as the files hand it on. -/
theorem relays_iff_handsOn (defined : OwnRecords g stars a m fun e => e.isReexport = false)
    (plain : OwnRecords g stars a m fun e => e.isDefault = false) :
    Relays (g.expandStars stars) m a b ↔ HandsOn g stars m a b := by
  -- both sides speak of the record of a file that has the name not by itself
  have record : ∀ n, g.node? a = some n → m ∉ n.exports.map Export.name →
      (firstLeading g stars [a] m n (starsOf stars a) = none ∧
          m ∉ (visibleExports g stars a).map Export.name) ∨
        ∃ q, firstLeading g stars [a] m n (starsOf stars a) = some q ∧
          Relays (g.expandStars stars) m a q := by
    intro n node new
    obtain ⟨visited, h⟩ := sees_through node stars
    have between := plainBetween_of_ownRecords plain node h
    rcases h.find?_eq between new with none | ⟨s, q, o, lead, target, name, first⟩
    · exact .inl none
    · exact .inr ⟨q, lead, _, _, node?_expandStars node, first, rfl, rfl,
        (lookupName_throughStar n s o).trans name, target⟩
  constructor
  · intro relays
    have new := (Relays.starTo defined relays).2
    obtain ⟨k, e, expanded, first, -⟩ := id relays
    obtain ⟨n, node, rfl⟩ := exists_node?_of_expandStars expanded
    have new : m ∉ n.exports.map Export.name := fun own => new ⟨n, node, own⟩
    rcases record n node new with ⟨-, unseen⟩ | ⟨q, lead, relays'⟩
    · have name : e.name = m := by simpa using List.find?_some first
      exact absurd (List.mem_map.2 ⟨e, List.mem_of_find?_eq_some first, name⟩) unseen
    · obtain rfl := Relays.rightUnique _ m relays relays'
      exact ⟨n, node, new, lead⟩
  · rintro ⟨n, node, new, lead⟩
    rcases record n node new with ⟨none, -⟩ | ⟨q, lead', relays⟩
    · rw [none] at lead
      cases lead
    · obtain rfl := Option.some.inj (lead.symm.trans lead')
      exact relays

/-- A file to which a name is handed on has it in the expanded graph. -/
theorem HandsOn.owns (plain : OwnRecords g stars b m fun e => e.isDefault = false)
    (h : HandsOn g stars m a b) : Owns (g.expandStars stars) b m := by
  obtain ⟨n, -, -, lead⟩ := h
  obtain ⟨x, way, owns⟩ := leads_of_firstLeading lead
  have reach := way.starReach
  obtain ⟨k, node⟩ : ∃ k, g.node? b = some k := by
    rcases reach.cases_head with rfl | ⟨c, ⟨k, -, node, -⟩, -⟩
    · exact owns.imp fun k h => h.1
    · exact ⟨k, node⟩
  exact ⟨_, node?_expandStars node, (mem_names_visibleExports_iff node plain).2 ⟨x, reach, owns⟩⟩

/-- A file that has the name in the expanded graph passes it on to files that have it. -/
theorem owns_of_relays (defined : OwnRecords g stars a m fun e => e.isReexport = false)
    (plain : OwnRecords g stars a m fun e => e.isDefault = false)
    (there : Owns (g.expandStars stars) a m)
    (way : ReflTransGen (Relays (g.expandStars stars) m) a b) :
    Owns (g.expandStars stars) b m := by
  induction way with
  | refl => exact there
  | @tail b c before step _ =>
    have reach := starReach_of_relays defined before
    have star := (Relays.starTo (defined.of_starReach reach) step).1
    have hands :=
      (relays_iff_handsOn (defined.of_starReach reach) (plain.of_starReach reach)).1 step
    exact hands.owns (plain.of_starReach (reach.tail star))

/-- **Where a name that came through star exports is traced to.**  Let all files that star
exports reach define the name if they export it themselves.  Then what is found is one of
them; nothing is found exactly where the records lead in a circle or to a file without the
name; and if none of these files exports the name as its default, nothing is found exactly
where the files hand the name on in a circle. -/
theorem origin_through_star (g : Graph) (stars : Stars) {path m : String}
    (added : Owns (g.expandStars stars) path m) (new : ¬ Owns g path m)
    (defined : OwnRecords g stars path m fun e => e.isReexport = false) :
    (∀ q, origin? (g.expandStars stars) path m = some q →
        q ≠ path ∧ StarReach g stars path q ∧ Owns g q m) ∧
      (origin? (g.expandStars stars) path m = none ↔
        Circles (Relays (g.expandStars stars) m) path ∨
          ∃ q, ReflTransGen (Relays (g.expandStars stars) m) path q ∧
            Stuck (g.expandStars stars) m q) ∧
      (OwnRecords g stars path m (fun e => e.isDefault = false) →
        (origin? (g.expandStars stars) path m = none ↔ Circles (HandsOn g stars m) path)) := by
  have straight : ∀ x, ReflTransGen (Relays (g.expandStars stars) m) path x →
      Straight (g.expandStars stars) m x :=
    fun x way => straight_expandStars (defined.of_starReach (starReach_of_relays defined way))
  refine ⟨?_, origin?_eq_none_iff straight, ?_⟩
  · intro q found
    have answer := answers_origin? straight
    rw [found] at answer
    obtain ⟨way, definition⟩ := answer
    have reach := starReach_of_relays defined way
    have owns := definition.owns (defined.of_starReach reach)
    exact ⟨fun eq => new (eq ▸ owns), reach, owns⟩
  · intro plain
    rw [origin?_eq_none_iff straight]
    -- on the files that star exports reach, passing on and handing on are the same
    have same : ∀ a b, StarReach g stars path a →
        (Relays (g.expandStars stars) m a b ↔ HandsOn g stars m a b) :=
      fun a b reach => relays_iff_handsOn (defined.of_starReach reach) (plain.of_starReach reach)
    have keeps : ∀ a b, StarReach g stars path a → Relays (g.expandStars stars) m a b →
        StarReach g stars path b :=
      fun a b reach step => reach.tail (Relays.starTo (defined.of_starReach reach) step).1
    constructor
    · rintro (circles | ⟨q, way, stuck⟩)
      · exact circles.mono_of_closed keeps (fun a b reach => (same a b reach).1) .refl
      · have reach := starReach_of_relays defined way
        have owns := owns_of_relays defined plain added way
        exact absurd stuck (not_stuck_of_owns (defined.of_starReach reach) owns)
    · intro circles
      left
      exact circles.mono_of_closed
        (fun a b reach step => keeps a b reach ((same a b reach).2 step))
        (fun a b reach => (same a b reach).2) .refl

/-- Two files with star exports of each other first and then of a third one. -/
def barrels : Graph where
  root := "/"
  nodes :=
    [{ path := "/a", relative := "a",
       links := (Links.addInternal {} "/b" { specifier := "./b" }).addInternal
         "/c" { specifier := "./c" } },
     { path := "/b", relative := "b",
       links := (Links.addInternal {} "/a" { specifier := "./a" }).addInternal
         "/c" { specifier := "./c" } },
     { path := "/c", relative := "c", exports := [{ name := "x" }] }]

/-- The star exports of the files above. -/
def barrelStars : Stars := [("/a", ["./b", "./c"]), ("/b", ["./a", "./c"])]

/-- The name that the third file defines is exported by the first one and is not found from
there, as the two hand it on to each other. -/
theorem origin_lost_in_barrels :
    Owns (barrels.expandStars barrelStars) "/a" "x" ∧ ¬ Owns barrels "/a" "x" ∧
      (OwnRecords barrels barrelStars "/a" "x" fun e => e.isReexport = false) ∧
      StarReach barrels barrelStars "/a" "/c" ∧ Owns barrels "/c" "x" ∧
      origin? (barrels.expandStars barrelStars) "/a" "x" = none := by
  have added : Owns (barrels.expandStars barrelStars) "/a" "x" := ⟨_, rfl, by decide⟩
  have new : ¬ Owns barrels "/a" "x" := by
    rintro ⟨n, node, own⟩
    obtain rfl := Option.some.inj node
    cases own
  have records : ∀ k ∈ barrels.nodes, ∀ e ∈ k.exports,
      e.isReexport = false ∧ e.isDefault = false := by decide
  have defined : OwnRecords barrels barrelStars "/a" "x" fun e => e.isReexport = false :=
    fun q k _ node e he _ => (records k (List.mem_of_find?_eq_some node) e he).1
  have plain : OwnRecords barrels barrelStars "/a" "x" fun e => e.isDefault = false :=
    fun q k _ node e he _ => (records k (List.mem_of_find?_eq_some node) e he).2
  have owns : Owns barrels "/c" "x" := ⟨_, rfl, by decide⟩
  have fromA : StarTo barrels barrelStars "/a" "/c" := ⟨_, "./c", rfl, by decide, rfl⟩
  have fromB : StarTo barrels barrelStars "/b" "/c" := ⟨_, "./c", rfl, by decide, rfl⟩
  have toB : HandsOn barrels barrelStars "x" "/a" "/b" :=
    ⟨_, rfl, by decide, firstLeading_cons_of_leads _ rfl
      ⟨"/c", ⟨by decide, .single ⟨fromB, by decide⟩⟩, owns⟩⟩
  have toA : HandsOn barrels barrelStars "x" "/b" "/a" :=
    ⟨_, rfl, by decide, firstLeading_cons_of_leads _ rfl
      ⟨"/c", ⟨by decide, .single ⟨fromA, by decide⟩⟩, owns⟩⟩
  refine ⟨added, new, defined, .single fromA, owns, ?_⟩
  refine ((origin_through_star barrels barrelStars added new defined).2.2 plain).2 ?_
  exact ⟨"/a", .refl, .head toB (.single toA)⟩

end ModuleAtlas.Flow
