/-
ModuleAtlas/Proofs/Origin.lean

Where the search for the definition of a name ends.

`Flow.originFrom` follows re-exports from file to file and gives up at a file that it
was at before.  As long as the files pass a name on under the same name, its way is
that of the relation `Relays`, which has at most one next file for each.  So it ends in
one of three ways: at a definition, in a circle, or at a file that neither defines the
name nor passes it on.  `answers_originFrom` says so for every point of a search, and
`origin?_eq_none_iff` that the last two are exactly where nothing is found.
-/
import Mathlib.Logic.Relation
import ModuleAtlas.Analysis.Flow

namespace ModuleAtlas.Flow

open Relation

variable {g : Graph} {m : String} {a b q : String}

/-! ### Files that pass a name on -/

/-- The first export of the name by a file is a definition. -/
def Defines (g : Graph) (m a : String) : Prop :=
  ∃ n e, g.node? a = some n ∧ n.export? m = some e ∧ e.isReexport = false

/-- The first export of the name by a file is a re-export of that name of another one. -/
def Relays (g : Graph) (m a b : String) : Prop :=
  ∃ n e, g.node? a = some n ∧ n.export? m = some e ∧ e.isReexport = true ∧
    e.isNamespace = false ∧ e.lookupName = m ∧ supplier? n e = some b

/-- A file that re-exports the name does so under the same name, and not as a whole
module. -/
def Straight (g : Graph) (m a : String) : Prop :=
  ∀ n e, g.node? a = some n → n.export? m = some e → e.isReexport = true →
    e.isNamespace = false ∧ e.lookupName = m

/-- A file neither defines the name nor passes it on. -/
def Stuck (g : Graph) (m a : String) : Prop := ¬ Defines g m a ∧ ∀ b, ¬ Relays g m a b

theorem Relays.rightUnique (g : Graph) (m : String) : Relator.RightUnique (Relays g m) := by
  rintro a b c ⟨n, e, node, first, -, -, -, next⟩ ⟨n', e', node', first', -, -, -, next'⟩
  obtain rfl := Option.some.inj (node.symm.trans node')
  obtain rfl := Option.some.inj (first.symm.trans first')
  exact Option.some.inj (next.symm.trans next')

theorem Defines.not_relays (h : Defines g m a) (b : String) : ¬ Relays g m a b := by
  rintro ⟨n', e', node', first', reexport, -⟩
  obtain ⟨n, e, node, first, definition⟩ := h
  obtain rfl := Option.some.inj (node.symm.trans node')
  obtain rfl := Option.some.inj (first.symm.trans first')
  rw [definition] at reexport
  cases reexport

/-! ### Circles -/

/-- Going on from a place leads into a circle. -/
def Circles (r : String → String → Prop) (a : String) : Prop :=
  ∃ q, ReflTransGen r a q ∧ TransGen r q q

theorem Circles.head {r : String → String → Prop} (step : r a b) (h : Circles r b) :
    Circles r a := by
  obtain ⟨q, way, circle⟩ := h
  exact ⟨q, .head step way, circle⟩

/-- The circles of a relation are those of another one that holds wherever it goes. -/
theorem Circles.mono_of_closed {r r' : String → String → Prop} {S : String → Prop}
    (keeps : ∀ a b, S a → r a b → S b) (sub : ∀ a b, S a → r a b → r' a b) (ha : S a)
    (h : Circles r a) : Circles r' a := by
  have transfer : ∀ {a b}, S a → ReflTransGen r a b → S b ∧ ReflTransGen r' a b := by
    intro a b ha way
    induction way with
    | refl => exact ⟨ha, .refl⟩
    | tail _ step ih => exact ⟨keeps _ _ ih.1 step, ih.2.tail (sub _ _ ih.1 step)⟩
  obtain ⟨q, way, circle⟩ := h
  obtain ⟨hq, way'⟩ := transfer ha way
  obtain ⟨b, step, back⟩ := TransGen.head'_iff.1 circle
  exact ⟨q, way', .head' (sub q b hq step) (transfer (keeps q b hq step) back).2⟩

/-- Whoever is reached from a circle is on it. -/
theorem transGen_of_reflTransGen (circle : TransGen (Relays g m) a a)
    (way : ReflTransGen (Relays g m) a b) : TransGen (Relays g m) b b := by
  induction way with
  | refl => exact circle
  | @tail b c _ step ih =>
    obtain ⟨c', step', back⟩ := TransGen.head'_iff.1 ih
    obtain rfl := Relays.rightUnique g m step step'
    exact TransGen.tail' back step

/-! ### The search -/

/-- What the answer of a search from a file means. -/
def Answers (g : Graph) (m a : String) : Option String → Prop
  | some q => ReflTransGen (Relays g m) a q ∧ Defines g m q
  | none => Circles (Relays g m) a ∨ ∃ q, ReflTransGen (Relays g m) a q ∧ Stuck g m q

theorem Answers.head {answer : Option String} (step : Relays g m a b)
    (h : Answers g m b answer) : Answers g m a answer := by
  cases answer with
  | some q => exact ⟨.head step h.1, h.2⟩
  | none =>
    rcases h with circles | ⟨q, way, stuck⟩
    · exact .inl (circles.head step)
    · exact .inr ⟨q, .head step way, stuck⟩

/-- Nothing is found from a file that is stuck. -/
theorem answers_of_stuck (h : Stuck g m a) : Answers g m a none := .inr ⟨a, .refl, h⟩

/-- A file is stuck if its first export of the name leads nowhere. -/
theorem stuck_of_export? {n : Node} (node : g.node? a = some n)
    (nowhere : ∀ e, n.export? m = some e → e.isReexport = true ∧ supplier? n e = none) :
    Stuck g m a := by
  constructor
  · rintro ⟨n', e, node', first, definition⟩
    obtain rfl := Option.some.inj (node.symm.trans node')
    rw [(nowhere e first).1] at definition
    cases definition
  · rintro b ⟨n', e, node', first, -, -, -, next⟩
    obtain rfl := Option.some.inj (node.symm.trans node')
    rw [(nowhere e first).2] at next
    cases next

/-- A search from a file that was reached from all files visited before answers right. -/
theorem answers_originFrom (g : Graph) (visited : List String) (a m : String)
    (straight : ∀ x, ReflTransGen (Relays g m) a x → Straight g m x)
    (reached : ∀ v ∈ visited, TransGen (Relays g m) v a) :
    Answers g m a (originFrom g visited a m) := by
  fun_induction originFrom g visited a m with
  | case1 visited a m seen =>
    -- back at a visited file: the way from there to here is a circle
    exact .inl ⟨a, .refl, reached a (by simpa using seen)⟩
  | case2 visited a m seen none =>
    refine answers_of_stuck ⟨?_, ?_⟩
    · rintro ⟨n, -, node, -⟩
      rw [none] at node
      cases node
    · rintro b ⟨n, -, node, -⟩
      rw [none] at node
      cases node
  | case3 visited a m seen n node none =>
    refine answers_of_stuck (stuck_of_export? node ?_)
    intro e first
    rw [none] at first
    cases first
  | case4 visited a m seen n node e first definition =>
    exact ⟨.refl, n, e, node, first, by simpa using definition⟩
  | case5 visited a m seen n node e first reexport none =>
    refine answers_of_stuck (stuck_of_export? node ?_)
    intro e' first'
    obtain rfl := Option.some.inj (first.symm.trans first')
    exact ⟨by simpa using reexport, none⟩
  | case6 visited a m seen n node e first reexport target some whole =>
    have named := (straight a .refl n e node first (by simpa using reexport)).1
    rw [whole] at named
    cases named
  | case7 visited a m seen n node e first reexport target some named ih =>
    obtain ⟨-, same⟩ := straight a .refl n e node first (by simpa using reexport)
    have step : Relays g m a target :=
      ⟨n, e, node, first, by simpa using reexport, by simpa using named, same, some⟩
    rw [same] at ih ⊢
    refine Answers.head step (ih (fun x way => straight x (.head step way)) ?_)
    intro v hv
    rcases List.mem_cons.1 hv with rfl | hv
    · exact .single step
    · exact (reached v hv).tail step

theorem answers_origin? (straight : ∀ x, ReflTransGen (Relays g m) a x → Straight g m x) :
    Answers g m a (origin? g a m) :=
  answers_originFrom g [] a m straight (by simp)

/-- A file from which a definition is found is neither in front of a circle nor of a file
that is stuck. -/
theorem Answers.not_none (h : Answers g m a (some q)) : ¬ Answers g m a none := by
  obtain ⟨way, definition⟩ := h
  -- there is one way only, so of two places on it one is on the way to the other
  have total := fun x => ReflTransGen.total_of_right_unique (Relays.rightUnique g m) (c := x) way
  -- and nothing comes behind the definition
  have last : ∀ x, ReflTransGen (Relays g m) q x → q = x := by
    intro x on
    rcases on.cases_head with eq | ⟨b, step, -⟩
    · exact eq
    · exact absurd step (definition.not_relays b)
  rintro (⟨x, wayX, circle⟩ | ⟨x, wayX, stuck⟩)
  · have circle : TransGen (Relays g m) q q := by
      rcases total x wayX with on | on
      · obtain rfl := last x on
        exact circle
      · exact transGen_of_reflTransGen circle on
    obtain ⟨b, step, -⟩ := TransGen.head'_iff.1 circle
    exact definition.not_relays b step
  · rcases total x wayX with on | on
    · obtain rfl := last x on
      exact stuck.1 definition
    · rcases on.cases_head with rfl | ⟨b, step, -⟩
      · exact stuck.1 definition
      · exact stuck.2 b step

/-- **Where nothing is found**: the files pass the name on in a circle, or to a file that
neither defines it nor passes it on. -/
theorem origin?_eq_none_iff
    (straight : ∀ x, ReflTransGen (Relays g m) a x → Straight g m x) :
    origin? g a m = none ↔
      Circles (Relays g m) a ∨ ∃ q, ReflTransGen (Relays g m) a q ∧ Stuck g m q := by
  have answer := answers_origin? straight
  constructor
  · intro none
    rw [none] at answer
    exact answer
  · intro lost
    rcases found : origin? g a m with - | q
    · rfl
    · rw [found] at answer
      exact absurd lost answer.not_none

end ModuleAtlas.Flow
