/-
ModuleAtlas/Proofs/Trace.lean

The way of an export and the file that defines it.

`Flow.traceFrom` and `Flow.originFrom` follow the re-exports of a name from file to file,
each past the files that it was at before.  Both do what the `sign` at a file says, so
both go the same way: a `Way` of re-exports that are no whole modules, through files that
are new to it (`traceFrom_way`, `originFrom_way`).  Every such way comes to one of three ends (`exists_end`): a definition,
a re-export of a whole module, or a `DeadEnd`.  The trace and the search differ only
there: a trace keeps what it has, while a search that comes to a dead end has found
nothing.

Main results: `trace_describes_way` reads the way, its files and its end off a trace, and
`origin_agrees_with_trace` says that the search finds the file that the trace names, or
nothing exactly where the trace came to a dead end.
-/
import Mathlib.Data.List.Nodup
import ModuleAtlas.Proofs.Origin

namespace ModuleAtlas.Flow

variable {g : Graph} {visited : List String} {a b q m l : String} {n : Node} {e : Export}

/-! ### Ways -/

/-- A file that a name comes through, with the re-export by which it does. -/
structure Hop where
  node : Node
  via : Export

/-- The paths of the files that a name comes through. -/
def hopPaths (hops : List Hop) : List String := hops.map fun h => h.node.path

/-- The same paths as seen from the root. -/
def hopRelatives (hops : List Hop) : List String := hops.map fun h => h.node.relative

@[simp] theorem hopPaths_nil : hopPaths [] = [] := rfl

@[simp] theorem hopPaths_cons (h : Hop) (hops : List Hop) :
    hopPaths (h :: hops) = h.node.path :: hopPaths hops := rfl

/-- The first export of a name by a file is a re-export, each time, and leads on to the name
that its supplier knows it by: from the first name and file to the last ones. -/
inductive Way (g : Graph) : String → String → List Hop → String → String → Prop
  | here (a m : String) : Way g a m [] a m
  | hop {a m b q l : String} {n : Node} {e : Export} {hops : List Hop}
      (node : g.node? a = some n) (first : n.export? m = some e) (reexport : e.isReexport = true)
      (next : supplier? n e = some b) (rest : Way g b e.lookupName hops q l) :
      Way g a m (⟨n, e⟩ :: hops) q l

variable {hops : List Hop}

/-- One more hop at the end of a way. -/
theorem Way.concat (way : Way g a m hops q l) (node : g.node? q = some n)
    (first : n.export? l = some e) (reexport : e.isReexport = true)
    (next : supplier? n e = some b) : Way g a m (hops ++ [⟨n, e⟩]) b e.lookupName := by
  induction way with
  | here => exact .hop node first reexport next (.here _ _)
  | hop node' first' reexport' next' _ ih =>
    exact .hop node' first' reexport' next' (ih node first)

/-! ### One step -/

/-- Where a name in a file leads: nowhere, to its definition there, to a whole module, or on
to a name in another file. -/
inductive Sign where
  | nothing
  | defined (e : Export)
  | whole (n : Node) (target : String)
  | on (n : Node) (e : Export) (target : String)

/-- What a file says about a name to one who was at other files before. -/
def sign (g : Graph) (visited : List String) (a m : String) : Sign :=
  if a ∈ visited then .nothing
  else
    match g.node? a with
    | none => .nothing
    | some n =>
      match n.export? m with
      | none => .nothing
      | some e =>
        if e.isReexport = false then .defined e
        else
          match supplier? n e with
          | none => .nothing
          | some b => if e.isNamespace = true then .whole n b else .on n e b

/-- A trace keeps what it has where nothing is said, and otherwise does what is said. -/
theorem traceFrom_eq (g : Graph) (visited : List String) (a m : String) :
    traceFrom g visited a m =
      match sign g visited a m with
      | .nothing => { definedIn := a }
      | .defined e => { definedIn := a, form := if e.isDefault then .main else .named }
      | .whole n b => { definedIn := b, form := .whole, chain := [n.relative] }
      | .on n e b =>
        { traceFrom g (a :: visited) b e.lookupName with
          chain := n.relative :: (traceFrom g (a :: visited) b e.lookupName).chain } := by
  fun_cases traceFrom g visited a m <;> simp_all [sign]
  -- what is left is the file that passes the name on, field by field
  exact ⟨rfl, rfl, rfl, rfl, rfl⟩

/-- A search gives up where nothing is said, and otherwise does what is said. -/
theorem originFrom_eq (g : Graph) (visited : List String) (a m : String) :
    originFrom g visited a m =
      match sign g visited a m with
      | .nothing => none
      | .defined _ => some a
      | .whole _ b => some b
      | .on _ e b => originFrom g (a :: visited) b e.lookupName := by
  fun_cases originFrom g visited a m <;> simp_all [sign]

/-- What a file that is new and exports the name says about it. -/
theorem sign_of_export? (new : a ∉ visited) (node : g.node? a = some n)
    (first : n.export? m = some e) :
    sign g visited a m =
      if e.isReexport = false then .defined e
      else
        match supplier? n e with
        | none => .nothing
        | some b => if e.isNamespace = true then .whole n b else .on n e b := by
  unfold sign
  rw [if_neg new, node]
  simp only [first]

/-! ### Following a way -/

/-- Hops that can be followed past the files visited before: no file is visited twice, and
none of the re-exports is that of a whole module. -/
structure Fresh (visited : List String) (hops : List Hop) : Prop where
  nodup : (hopPaths hops).Nodup
  new : ∀ p ∈ hopPaths hops, p ∉ visited
  named : ∀ h ∈ hops, h.via.isNamespace = false

theorem Fresh.nil (visited : List String) : Fresh visited [] :=
  ⟨List.nodup_nil, fun _ hp => (List.not_mem_nil hp).elim, fun _ hh => (List.not_mem_nil hh).elim⟩

theorem fresh_cons_iff :
    Fresh visited (⟨n, e⟩ :: hops) ↔
      n.path ∉ visited ∧ e.isNamespace = false ∧ Fresh (n.path :: visited) hops := by
  constructor
  · rintro ⟨nodup, new, named⟩
    obtain ⟨notMem, nodup⟩ := List.nodup_cons.1 nodup
    refine ⟨new _ List.mem_cons_self, named _ List.mem_cons_self, nodup, ?_,
      fun h hh => named h (List.mem_cons_of_mem _ hh)⟩
    intro p hp old
    rcases List.mem_cons.1 old with rfl | old
    · exact notMem hp
    · exact new p (List.mem_cons_of_mem _ hp) old
  · rintro ⟨head, flag, nodup, new, named⟩
    refine ⟨List.nodup_cons.2 ⟨fun hp => new _ hp List.mem_cons_self, nodup⟩, ?_, ?_⟩
    · intro p hp
      rcases List.mem_cons.1 hp with rfl | hp
      · exact head
      · exact fun old => new p hp (List.mem_cons_of_mem _ old)
    · intro h hh
      rcases List.mem_cons.1 hh with rfl | hh
      · exact flag
      · exact named h hh

/-- A trace follows a way that is fresh. -/
theorem traceFrom_way (way : Way g a m hops q l) (fresh : Fresh visited hops) :
    traceFrom g visited a m =
      { traceFrom g ((hopPaths hops).reverse ++ visited) q l with
        chain := hopRelatives hops
          ++ (traceFrom g ((hopPaths hops).reverse ++ visited) q l).chain } := by
  induction way generalizing visited with
  | here => rfl
  | hop node first reexport next _ ih =>
    obtain rfl := Graph.path_of_node? node
    obtain ⟨new, named, fresh⟩ := fresh_cons_iff.1 fresh
    rw [traceFrom_eq, sign_of_export? new node first]
    simp [hopRelatives, reexport, next, named, ih fresh]

/-- A search follows a way that is fresh. -/
theorem originFrom_way (way : Way g a m hops q l) (fresh : Fresh visited hops) :
    originFrom g visited a m = originFrom g ((hopPaths hops).reverse ++ visited) q l := by
  induction way generalizing visited with
  | here => rfl
  | hop node first reexport next _ ih =>
    obtain rfl := Graph.path_of_node? node
    obtain ⟨new, named, fresh⟩ := fresh_cons_iff.1 fresh
    rw [originFrom_eq, sign_of_export? new node first]
    simp [reexport, next, named, ih fresh]

/-! ### Ends -/

/-- A name in a file leads no further, and is not defined there: the file was visited
before, or is none of the graph, or does not export the name, or its re-export of the name
has no supplier. -/
inductive DeadEnd (g : Graph) (visited : List String) (q l : String) : Prop
  | repeated (seen : q ∈ visited)
  | missing (none : g.node? q = none)
  | unnamed {n : Node} (node : g.node? q = some n) (none : n.export? l = none)
  | unsupplied {n : Node} {e : Export} (node : g.node? q = some n)
      (first : n.export? l = some e) (reexport : e.isReexport = true)
      (none : supplier? n e = none)

/-- Nothing is said about a name that leads no further. -/
theorem sign_of_deadEnd (h : DeadEnd g visited q l) : sign g visited q l = .nothing := by
  by_cases seen : q ∈ visited
  · rw [sign, if_pos seen]
  cases h with
  | repeated seen' => exact absurd seen' seen
  | missing none => rw [sign, if_neg seen, none]
  | unnamed node none =>
    rw [sign, if_neg seen, node]
    simp only [none]
  | unsupplied node first reexport none =>
    rw [sign_of_export? seen node first]
    simp [reexport, none]

theorem DeadEnd.mono {visited' : List String} (sub : visited ⊆ visited')
    (h : DeadEnd g visited q l) : DeadEnd g visited' q l := by
  cases h with
  | repeated seen => exact .repeated (sub seen)
  | missing none => exact .missing none
  | unnamed node none => exact .unnamed node none
  | unsupplied node first reexport none => exact .unsupplied node first reexport none

/-- A name that leads no further from a file that is new is not defined there. -/
theorem DeadEnd.not_defines (h : DeadEnd g visited q l) (new : q ∉ visited) : ¬ Defines g l q := by
  rintro ⟨n', e', node', first', definition⟩
  cases h with
  | repeated seen => exact new seen
  | missing none =>
    rw [none] at node'
    cases node'
  | unnamed node none =>
    obtain rfl := Option.some.inj (node.symm.trans node')
    rw [none] at first'
    cases first'
  | unsupplied node first reexport none =>
    obtain rfl := Option.some.inj (node.symm.trans node')
    obtain rfl := Option.some.inj (first.symm.trans first')
    rw [reexport] at definition
    cases definition

/-- The ends that a search can come to. -/
inductive Ends (g : Graph) (visited : List String) (q l : String) : Prop
  | lost (dead : DeadEnd g visited q l)
  | defined {n : Node} {e : Export} (new : q ∉ visited) (node : g.node? q = some n)
      (first : n.export? l = some e) (definition : e.isReexport = false)
  | whole {n : Node} {e : Export} {b : String} (new : q ∉ visited) (node : g.node? q = some n)
      (first : n.export? l = some e) (reexport : e.isReexport = true)
      (next : supplier? n e = some b) (whole : e.isNamespace = true)

/-- From every name in a file a way that is fresh leads to an end. -/
theorem exists_end_from (g : Graph) (visited : List String) (a m : String) :
    ∃ hops q l, Way g a m hops q l ∧ Fresh visited hops ∧ Ends g (hopPaths hops ++ visited) q l := by
  -- the cases are those of the search, which ends for the same reason
  fun_induction originFrom g visited a m with
  | case1 visited a m seen =>
    exact ⟨[], a, m, .here a m, .nil _, .lost (.repeated (by simpa using seen))⟩
  | case2 visited a m seen none =>
    exact ⟨[], a, m, .here a m, .nil _, .lost (.missing none)⟩
  | case3 visited a m seen n node none =>
    exact ⟨[], a, m, .here a m, .nil _, .lost (.unnamed node none)⟩
  | case4 visited a m seen n node e first definition =>
    exact ⟨[], a, m, .here a m, .nil _,
      .defined (by simpa using seen) node first (by simpa using definition)⟩
  | case5 visited a m seen n node e first reexport none =>
    exact ⟨[], a, m, .here a m, .nil _,
      .lost (.unsupplied node first (by simpa using reexport) none)⟩
  | case6 visited a m seen n node e first reexport b next whole =>
    exact ⟨[], a, m, .here a m, .nil _,
      .whole (by simpa using seen) node first (by simpa using reexport) next whole⟩
  | case7 visited a m seen n node e first reexport b next named ih =>
    obtain rfl := Graph.path_of_node? node
    obtain ⟨hops, q, l, way, fresh, ends⟩ := ih
    refine ⟨⟨n, e⟩ :: hops, q, l, .hop node first (by simpa using reexport) next way,
      fresh_cons_iff.2 ⟨by simpa using seen, by simpa using named, fresh⟩, ?_⟩
    -- the file that was left stands in front of the others now
    have same : ∀ p, p ∈ hopPaths hops ++ n.path :: visited ↔
        p ∈ hopPaths (⟨n, e⟩ :: hops) ++ visited := by
      intro p
      simp only [hopPaths_cons, List.mem_append, List.mem_cons]
      tauto
    cases ends with
    | lost dead => exact .lost (dead.mono fun p hp => (same p).1 hp)
    | defined new node' first' definition =>
      exact .defined (fun hq => new ((same q).2 hq)) node' first' definition
    | whole new node' first' reexport' next' whole =>
      exact .whole (fun hq => new ((same q).2 hq)) node' first' reexport' next' whole

theorem exists_end (g : Graph) (a m : String) :
    ∃ hops q l, Way g a m hops q l ∧ Fresh [] hops ∧ Ends g (hopPaths hops) q l := by
  simpa using exists_end_from g [] a m

/-! ### Traces and searches at their ends -/

/-- A trace keeps what it has where a search has found nothing. -/
theorem trace_of_lost (way : Way g a m hops q l) (fresh : Fresh [] hops)
    (dead : DeadEnd g (hopPaths hops) q l) :
    trace g a m = { definedIn := q, chain := hopRelatives hops } ∧
      origin? g a m = none := by
  have dead : DeadEnd g ((hopPaths hops).reverse ++ []) q l := dead.mono (by simp)
  constructor
  · rw [trace, traceFrom_way way fresh, traceFrom_eq, sign_of_deadEnd dead]
    simp
  · rw [origin?, originFrom_way way fresh, originFrom_eq, sign_of_deadEnd dead]

theorem trace_of_defined (way : Way g a m hops q l) (fresh : Fresh [] hops)
    (new : q ∉ hopPaths hops) (node : g.node? q = some n) (first : n.export? l = some e)
    (definition : e.isReexport = false) :
    trace g a m =
        { definedIn := q
          form := if e.isDefault then .main else .named
          chain := hopRelatives hops } ∧
      origin? g a m = some q := by
  have new : q ∉ (hopPaths hops).reverse ++ [] := by simpa using new
  constructor
  · rw [trace, traceFrom_way way fresh, traceFrom_eq, sign_of_export? new node first]
    simp [definition]
  · rw [origin?, originFrom_way way fresh, originFrom_eq, sign_of_export? new node first]
    simp [definition]

theorem trace_of_whole (way : Way g a m hops q l) (fresh : Fresh [] hops)
    (new : q ∉ hopPaths hops) (node : g.node? q = some n) (first : n.export? l = some e)
    (reexport : e.isReexport = true) (next : supplier? n e = some b)
    (whole : e.isNamespace = true) :
    trace g a m =
        { definedIn := b
          form := .whole
          chain := hopRelatives (hops ++ [⟨n, e⟩]) } ∧
      origin? g a m = some b := by
  have new : q ∉ (hopPaths hops).reverse ++ [] := by simpa using new
  constructor
  · rw [trace, traceFrom_way way fresh, traceFrom_eq, sign_of_export? new node first]
    simp [hopRelatives, reexport, next, whole]
  · rw [origin?, originFrom_way way fresh, originFrom_eq, sign_of_export? new node first]
    simp [reexport, next, whole]

/-! ### Main results -/

/-- **What a trace says.**  From the name in the file re-exports lead on, through distinct
files of the graph whose relative paths are the chain of the trace, to the file that the
trace names.  The way goes as far as it can: its last re-export is that of a whole module,
or the name is defined where it ends, or leads no further.  The form of the trace tells
the first of these, and a default definition among the second. -/
theorem trace_describes_way (g : Graph) (path name : String) :
    ∃ hops last l, Way g path name hops last l ∧ (hopPaths hops).Nodup ∧
      (trace g path name).chain = hopRelatives hops ∧
      (trace g path name).definedIn = last ∧
      (∀ h ∈ hops.dropLast, h.via.isNamespace = false) ∧
      ((∃ h ∈ hops.getLast?, h.via.isNamespace = true) ∨
        (last ∉ hopPaths hops ∧ Defines g l last) ∨ DeadEnd g (hopPaths hops) last l) ∧
      ((trace g path name).form = .whole ↔ ∃ h ∈ hops.getLast?, h.via.isNamespace = true) ∧
      ((trace g path name).form = .main ↔
        (∀ h ∈ hops, h.via.isNamespace = false) ∧ last ∉ hopPaths hops ∧
          ∃ n e, g.node? last = some n ∧ n.export? l = some e ∧ e.isReexport = false ∧
            e.isDefault = true) := by
  obtain ⟨hops, q, l, way, fresh, ends⟩ := exists_end g path name
  have inner : ∀ h ∈ hops.dropLast, h.via.isNamespace = false :=
    fun h hh => fresh.named h (List.dropLast_subset hops hh)
  have notWhole : ¬ ∃ h ∈ hops.getLast?, h.via.isNamespace = true := by
    rintro ⟨h, hh, whole⟩
    rw [fresh.named h (List.mem_of_getLast? hh)] at whole
    cases whole
  cases ends with
  | lost dead =>
    rw [(trace_of_lost way fresh dead).1]
    refine ⟨hops, q, l, way, fresh.nodup, rfl, rfl, inner, .inr (.inr dead),
      iff_of_false (by simp) notWhole, iff_of_false (by simp) ?_⟩
    rintro ⟨-, new, n, e, node, first, definition, -⟩
    exact dead.not_defines new ⟨n, e, node, first, definition⟩
  | @defined n e new node first definition =>
    rw [(trace_of_defined way fresh new node first definition).1]
    refine ⟨hops, q, l, way, fresh.nodup, rfl, rfl, inner,
      .inr (.inl ⟨new, n, e, node, first, definition⟩), iff_of_false ?_ notWhole, ?_⟩
    · show (if e.isDefault = true then ExportForm.main else .named) ≠ .whole
      split <;> simp
    · show (if e.isDefault = true then ExportForm.main else .named) = .main ↔ _
      constructor
      · intro main
        refine ⟨fresh.named, new, n, e, node, first, definition, ?_⟩
        by_contra plain
        rw [if_neg plain] at main
        cases main
      · rintro ⟨-, -, n', e', node', first', -, main⟩
        obtain rfl := Option.some.inj (node.symm.trans node')
        obtain rfl := Option.some.inj (first.symm.trans first')
        rw [if_pos main]
  | @whole n e b new node first reexport next whole =>
    rw [(trace_of_whole way fresh new node first reexport next whole).1]
    obtain rfl := Graph.path_of_node? node
    have nodup : (hopPaths (hops ++ [⟨n, e⟩])).Nodup := by
      simpa [hopPaths, List.concat_eq_append] using List.Nodup.concat new fresh.nodup
    refine ⟨hops ++ [⟨n, e⟩], b, e.lookupName, way.concat node first reexport next, nodup,
      rfl, rfl, ?_, .inl ⟨⟨n, e⟩, by simp, whole⟩, by simp [whole], iff_of_false (by simp) ?_⟩
    · rw [List.dropLast_concat]
      exact fresh.named
    · rintro ⟨named, -⟩
      rw [named ⟨n, e⟩ (by simp)] at whole
      cases whole

/-- **The trace and the search agree.**  What the search finds is the file that the trace
names; and it finds nothing exactly where the trace came, by re-exports none of which is
that of a whole module, to a name that leads no further: in a file that the trace had come
through before, in no file of the graph, in a file that does not export it, or in one whose
re-export of it has no supplier. -/
theorem origin_agrees_with_trace (g : Graph) (path name : String) :
    (∀ p, origin? g path name = some p → (trace g path name).definedIn = p) ∧
      (origin? g path name = none ↔
        ∃ hops last l, Way g path name hops last l ∧ (hopPaths hops).Nodup ∧
          (∀ h ∈ hops, h.via.isNamespace = false) ∧
          (trace g path name).chain = hopRelatives hops ∧
          (trace g path name).definedIn = last ∧ DeadEnd g (hopPaths hops) last l) := by
  obtain ⟨hops, q, l, way, fresh, ends⟩ := exists_end g path name
  -- a way to a dead end is one on which nothing is found
  have none_of_dead : ∀ {hops q l}, Way g path name hops q l → (hopPaths hops).Nodup →
      (∀ h ∈ hops, h.via.isNamespace = false) → DeadEnd g (hopPaths hops) q l →
      origin? g path name = none :=
    fun way nodup named dead =>
      (trace_of_lost way ⟨nodup, fun _ _ => List.not_mem_nil, named⟩ dead).2
  cases ends with
  | lost dead =>
    obtain ⟨flow, none⟩ := trace_of_lost way fresh dead
    rw [none, flow]
    refine ⟨nofun, iff_of_true rfl ?_⟩
    exact ⟨hops, q, l, way, fresh.nodup, fresh.named, rfl, rfl, dead⟩
  | defined new node first definition =>
    obtain ⟨flow, found⟩ := trace_of_defined way fresh new node first definition
    refine ⟨fun p found' => ?_, iff_of_false (by simp [found]) ?_⟩
    · rw [flow]
      exact Option.some.inj (found.symm.trans found')
    · rintro ⟨hops', q', l', way', nodup, named, -, -, dead⟩
      rw [none_of_dead way' nodup named dead] at found
      cases found
  | whole new node first reexport next whole =>
    obtain ⟨flow, found⟩ := trace_of_whole way fresh new node first reexport next whole
    refine ⟨fun p found' => ?_, iff_of_false (by simp [found]) ?_⟩
    · rw [flow]
      exact Option.some.inj (found.symm.trans found')
    · rintro ⟨hops', q', l', way', nodup, named, -, -, dead⟩
      rw [none_of_dead way' nodup named dead] at found
      cases found

end ModuleAtlas.Flow
