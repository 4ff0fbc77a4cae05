/-
ModuleAtlas/Proofs/RepeatedFiles.lean

Names that come through a file twice.

`Flow.originFrom` keeps the files that it was at, and gives up where it meets one of them
again.  What it follows are names in files, though: a file can take a name from another one
that takes it, under a second name, from the first.  Such a way is no circle.  A way to a
definition never comes to the same name in the same file twice (`Way.nodup_stations`), since
there is one way only from each of them.  But nothing is found at its end if it comes to one file
twice, and the definition is found on all other ways (`origin?_eq_of_way`).
-/
import ModuleAtlas.Proofs.Trace

namespace ModuleAtlas.Flow

variable {g : Graph} {visited : List String} {a q m l : String} {hops : List Hop}

/-! ### Stations -/

/-- The names in files that a way comes to, its end included: each file with the name that is
looked for there. -/
def stations (hops : List Hop) (q l : String) : List (String × String) :=
  hops.map (fun h => (h.node.path, h.via.name)) ++ [(q, l)]

/-- The files that a way comes to, its end included. -/
def stops (hops : List Hop) (q : String) : List String := hopPaths hops ++ [q]

@[simp] theorem stops_nil (q : String) : stops [] q = [q] := rfl

@[simp] theorem stops_cons (h : Hop) (hops : List Hop) (q : String) :
    stops (h :: hops) q = h.node.path :: stops hops q := rfl

theorem map_fst_stations (hops : List Hop) (q l : String) :
    (stations hops q l).map Prod.fst = stops hops q := by
  simp [stations, stops, hopPaths, Function.comp_def]

theorem name_of_export? {n : Node} {e : Export} (first : n.export? m = some e) : e.name = m := by
  have named := List.find?_some first
  simpa using named

/-- From each station of a way the rest of it leads on to its end. -/
theorem Way.of_mem_stations {p k : String} (way : Way g a m hops q l)
    (h : (p, k) ∈ stations hops q l) :
    ∃ rest, Way g p k rest q l ∧ rest.length ≤ hops.length := by
  induction way with
  | here a m =>
    obtain ⟨rfl, rfl⟩ := Prod.mk.inj (List.mem_singleton.1 h)
    exact ⟨[], .here _ _, Nat.le_refl _⟩
  | @hop a m b q l n e hops node first reexport next rest ih =>
    rcases List.mem_cons.1 h with here | later
    · obtain ⟨rfl, rfl⟩ := Prod.mk.inj here
      obtain rfl := Graph.path_of_node? node
      obtain rfl := name_of_export? first
      exact ⟨_, .hop node first reexport next rest, Nat.le_refl _⟩
    · obtain ⟨more, way, shorter⟩ := ih later
      exact ⟨more, way, Nat.le_succ_of_le shorter⟩

/-! ### Ways to a definition -/

/-- A name that is defined in a file does not lead on. -/
theorem Way.eq_nil_of_defines (way : Way g a m hops q l) (definition : Defines g m a) :
    hops = [] := by
  cases way with
  | here => rfl
  | hop node first reexport _ _ =>
    obtain ⟨n', e', node', first', plain⟩ := definition
    obtain rfl := Option.some.inj (node.symm.trans node')
    obtain rfl := Option.some.inj (first.symm.trans first')
    rw [reexport] at plain
    cases plain

/-- There is one way only to a definition. -/
theorem Way.hops_unique {hops' : List Hop} {q' l' : String} (way : Way g a m hops q l)
    (definition : Defines g l q) (way' : Way g a m hops' q' l') (definition' : Defines g l' q') :
    hops = hops' := by
  induction way generalizing hops' with
  | here => exact (way'.eq_nil_of_defines definition).symm
  | hop node first reexport next rest ih =>
    cases way' with
    | here =>
      exact Way.eq_nil_of_defines (.hop node first reexport next rest) definition'
    | hop node' first' _ next' rest' =>
      obtain rfl := Option.some.inj (node.symm.trans node')
      obtain rfl := Option.some.inj (first.symm.trans first')
      obtain rfl := Option.some.inj (next.symm.trans next')
      rw [ih definition rest']

/-- **A way to a definition is no circle**: it comes to no name in a file twice. -/
theorem Way.nodup_stations (way : Way g a m hops q l) (definition : Defines g l q) :
    (stations hops q l).Nodup := by
  induction way with
  | here => exact List.nodup_singleton _
  | @hop a m b q l n e hops node first reexport next rest ih =>
    refine List.nodup_cons.2 ⟨?_, ih definition⟩
    intro again
    -- the rest of the way would come to its own start, from where there is one way only
    obtain ⟨more, way, shorter⟩ := rest.of_mem_stations again
    rw [Graph.path_of_node? node, name_of_export? first] at way
    have same := way.hops_unique definition (.hop node first reexport next rest) definition
    rw [same] at shorter
    exact Nat.not_succ_le_self _ shorter

/-! ### The search -/

/-- A search from the first station of a way to a definition finds it exactly if the files that
the way comes to are new and all different. -/
theorem originFrom_of_way (way : Way g a m hops q l)
    (named : ∀ h ∈ hops, h.via.isNamespace = false) (definition : Defines g l q) :
    originFrom g visited a m =
      if (stops hops q).Nodup ∧ ∀ p ∈ stops hops q, p ∉ visited then some q else none := by
  induction way generalizing visited with
  | here q l =>
    obtain ⟨n, e, node, first, plain⟩ := definition
    rw [originFrom_eq]
    by_cases seen : q ∈ visited
    · rw [sign_of_deadEnd (.repeated seen), if_neg (by simp [seen])]
    · rw [sign_of_export? seen node first, if_pos plain, if_pos (by simp [seen])]
  | @hop a m b q l n e hops node first reexport next rest ih =>
    obtain rfl := Graph.path_of_node? node
    rw [originFrom_eq]
    by_cases seen : n.path ∈ visited
    · rw [sign_of_deadEnd (.repeated seen), if_neg (by simp [seen])]
    · have flag : e.isNamespace = false := named ⟨n, e⟩ List.mem_cons_self
      have on : sign g visited n.path m = .on n e b := by
        rw [sign_of_export? seen node first]
        simp [reexport, next, flag]
      rw [on]
      show originFrom g (n.path :: visited) b e.lookupName = _
      rw [ih (fun h hh => named h (List.mem_cons_of_mem _ hh)) definition]
      -- the file that was left is new, and is to come no more
      refine if_congr ?_ rfl rfl
      simp only [stops_cons, List.nodup_cons, List.mem_cons, forall_eq_or_imp, not_or]
      constructor
      · rintro ⟨nodup, new⟩
        exact ⟨⟨fun h => (new _ h).1 rfl, nodup⟩, seen, fun p hp => (new p hp).2⟩
      · rintro ⟨⟨once, nodup⟩, -, new⟩
        exact ⟨nodup, fun p hp => ⟨fun same => once (same ▸ hp), new p hp⟩⟩

/-- **Where a definition is found.**  Let re-exports, none of them that of a whole module, lead
from a name in a file to a name that is defined in a file.  The way is no circle, and the search
finds the definition if the files that it comes to are all different.  Where it comes to one of
them twice, which is then under two names, the search finds nothing. -/
theorem origin?_eq_of_way {path name : String} (way : Way g path name hops q l)
    (named : ∀ h ∈ hops, h.via.isNamespace = false) (definition : Defines g l q) :
    (stations hops q l).Nodup ∧
      origin? g path name =
        if ((stations hops q l).map Prod.fst).Nodup then some q else none := by
  refine ⟨way.nodup_stations definition, ?_⟩
  rw [origin?, originFrom_of_way way named definition, map_fst_stations]
  exact if_congr (by simp) rfl rfl

/-- Two files, the first of which takes a name from the second, which takes it from the first
under the name that it is defined by there. -/
def thereAndBack : Graph where
  root := "/"
  nodes :=
    [{ path := "/a", relative := "a"
       links := Links.addInternal {} "/b" { specifier := "./b" }
       exports := [{ name := "x", isReexport := true, remote := some "x", source := some "./b" },
                   { name := "y", kind := .constant }] },
     { path := "/b", relative := "b"
       links := Links.addInternal {} "/a" { specifier := "./a" }
       exports := [{ name := "x", isReexport := true, remote := some "y", source := some "./a" }] }]

/-- From the first file the name leads to its definition there, and it is not found. -/
theorem origin?_lost_there_and_back :
    ∃ hops, Way thereAndBack "/a" "x" hops "/a" "y" ∧
      (∀ h ∈ hops, h.via.isNamespace = false) ∧ Defines thereAndBack "y" "/a" ∧
      (stations hops "/a" "y").Nodup ∧ origin? thereAndBack "/a" "x" = none := by
  have way : Way thereAndBack "/a" "x" _ "/a" "y" :=
    .hop rfl rfl rfl rfl (.hop rfl rfl rfl rfl (.here _ _))
  have definition : Defines thereAndBack "y" "/a" := ⟨_, _, rfl, rfl, rfl⟩
  obtain ⟨nodup, found⟩ := origin?_eq_of_way way (by simp) definition
  exact ⟨_, way, by simp, definition, nodup, found.trans (if_neg (by simp [stations]))⟩

end ModuleAtlas.Flow
