/-
ModuleAtlas/Proofs/EntryFlows.lean

The flows of what the entries of a graph export.

The flows are gathered entry after entry and export after export, in one list with a name for
each flow.  What counts is what the list says about a name (`flow?`), and what one export does to
that is said once (`flow?_addExport`): it publishes the flow of its own name, or makes it, and
touches no other.  To publish a flow twice from one file is to do it once (`publish_publish`), so a
file that exports a name several times counts once (`flow?_addExports`), and over all entries the
flow of a name is made by the first file that exports it and published by all that do
(`flow?_addEntries`).

The chain of a flow is what the trace from that first file came through, without the file itself.
A trace comes through no file twice (`exists_chain`), so where no two files look alike from the
root, taking the file off the front takes it off the chain.

Main result: `all_tells_entries`.
-/
import ModuleAtlas.Proofs.PackageViews
import ModuleAtlas.Proofs.SubpathConditions
import ModuleAtlas.Proofs.Trace

namespace ModuleAtlas.Flow

variable {g : Graph} {n : Node} {e : Export} {f : Flow} {flows : List (String × Flow)}
  {cs given : List String} {name : String}

/-! ### What a list of flows says about a name -/

/-- The flow of a name. -/
def flow? (flows : List (String × Flow)) (name : String) : Option Flow :=
  (flows.find? fun f => f.1 == name).map Prod.snd

theorem flow?_of_mem (once : (flows.map Prod.fst).Nodup) (h : (name, f) ∈ flows) :
    flow? flows name = some f := by
  unfold flow?
  rw [find?_key_of_nodup once h]
  rfl

/-- One more export adds its name, unless it is there. -/
theorem map_fst_addExport :
    (addExport g n cs flows e).map Prod.fst = insertNew (flows.map Prod.fst) e.name := by
  unfold addExport insertNew
  rw [contains_map_key]
  split
  · rw [List.map_map]
    apply List.map_congr_left
    intro f _
    show (if f.1 == e.name then (f.1, publish n cs f.2) else f).1 = f.1
    split <;> rfl
  · simp

/-- **What one export of an entry does**: it publishes the flow of its name from the entry, and
makes it first where there is none.  All other flows stay. -/
theorem flow?_addExport :
    flow? (addExport g n cs flows e) name =
      if e.name = name then some (publish n cs ((flow? flows name).getD (ofEntry g n name)))
      else flow? flows name := by
  unfold addExport
  split
  · next known =>
    have keeps : ((fun f : String × Flow => f.1 == name) ∘ fun f =>
        if f.1 == e.name then (f.1, publish n cs f.2) else f) = fun f => f.1 == name := by
      funext f
      rw [Function.comp_apply]
      split <;> rfl
    unfold flow?
    rw [List.find?_map, keeps]
    rcases found : flows.find? fun f => f.1 == name with - | ⟨key, f⟩
    · -- a name without a flow is another one
      have other : e.name ≠ name := by
        rintro rfl
        obtain ⟨f, hf, here⟩ := List.any_eq_true.1 known
        exact List.find?_eq_none.1 found f hf here
      simp [found, other]
    · obtain rfl : key = name := by simpa using List.find?_some found
      by_cases same : e.name = key
      · simp [found, same]
      · simp [found, same, Ne.symm same]
  · next new =>
    unfold flow?
    rw [List.find?_append]
    by_cases same : e.name = name
    · subst same
      have none : (flows.find? fun f => f.1 == e.name) = none :=
        List.find?_eq_none.2 fun f hf here => new (List.any_eq_true.2 ⟨f, hf, here⟩)
      simp [none]
    · simp [same]

/-! ### One entry -/

/-- The file exports the name. -/
def Gives (n : Node) (name : String) : Prop := ∃ e ∈ n.exports, e.name = name

instance (n : Node) (name : String) : Decidable (Gives n name) :=
  inferInstanceAs (Decidable (∃ e ∈ n.exports, e.name = name))

/-- To publish a flow from a file once more changes nothing. -/
theorem publish_publish (n : Node) (cs : List String) (f : Flow) :
    publish n cs (publish n cs f) = publish n cs f := by
  have file : insertNew (insertNew f.publicFrom n.relative) n.relative =
      insertNew f.publicFrom n.relative :=
    if_pos (List.contains_iff_mem.2 (mem_insertNew.2 (.inr rfl)))
  have conditions : cs.foldl insertNew (cs.foldl insertNew f.conditions) =
      cs.foldl insertNew f.conditions :=
    foldl_insertNew_of_subset fun c hc => mem_foldl_insertNew.2 (.inr hc)
  unfold publish
  dsimp only
  rw [file, conditions]

/-- A file publishes the flow of each name that it exports, however often it exports it. -/
theorem flow?_addExports (es : List Export) (flows : List (String × Flow)) :
    flow? (es.foldl (addExport g n cs) flows) name =
      if ∃ e ∈ es, e.name = name then
        some (publish n cs ((flow? flows name).getD (ofEntry g n name)))
      else flow? flows name := by
  induction es generalizing flows with
  | nil => simp
  | cons e es ih =>
    rw [List.foldl_cons, ih, flow?_addExport]
    by_cases here : e.name = name
    · -- what comes behind finds the flow published from this file
      by_cases later : ∃ e ∈ es, e.name = name <;> simp [here, later, publish_publish]
    · simp [here]

/-! ### All entries -/

/-- The flow of a name after one more file that exports it. -/
def pass (g : Graph) (name : String) (cs : Node → List String) (f : Option Flow) (n : Node) :
    Option Flow :=
  some (publish n (cs n) (f.getD (ofEntry g n name)))

/-- **What the entries make of the flow of a name**: those that export it pass it on from one to
the next. -/
theorem flow?_addEntries (g : Graph) (name : String) (cs : Node → List String)
    (ns : List Node) (flows : List (String × Flow)) :
    flow? (ns.foldl (fun flows n => n.exports.foldl (addExport g n (cs n)) flows) flows) name =
      (ns.filter fun n => decide (Gives n name)).foldl (pass g name cs) (flow? flows name) := by
  induction ns generalizing flows with
  | nil => rfl
  | cons n ns ih =>
    rw [List.foldl_cons, ih, flow?_addExports]
    by_cases gives : Gives n name
    · rw [List.filter_cons_of_pos (by simpa using gives), List.foldl_cons,
        if_pos (show ∃ e ∈ n.exports, e.name = name from gives)]
      rfl
    · rw [List.filter_cons_of_neg (by simpa using gives),
        if_neg (show ¬ ∃ e ∈ n.exports, e.name = name from gives)]

theorem map_fst_addExports (es : List Export) (flows : List (String × Flow)) :
    (es.foldl (addExport g n cs) flows).map Prod.fst =
      (es.map Export.name).foldl insertNew (flows.map Prod.fst) := by
  induction es generalizing flows with
  | nil => rfl
  | cons e es ih => rw [List.foldl_cons, ih, map_fst_addExport, List.map_cons, List.foldl_cons]

/-- The names of the flows are those of all exports of the entries, each once. -/
theorem map_fst_addEntries (cs : Node → List String) (ns : List Node)
    (flows : List (String × Flow)) :
    (ns.foldl (fun flows n => n.exports.foldl (addExport g n (cs n)) flows) flows).map Prod.fst =
      (ns.flatMap fun n => n.exports.map Export.name).foldl insertNew (flows.map Prod.fst) := by
  induction ns generalizing flows with
  | nil => rfl
  | cons n ns ih =>
    rw [List.foldl_cons, ih, map_fst_addExports, List.flatMap_cons, List.foldl_append]

/-- Two flows go the same way, wherever they are published. -/
structure SameWay (f f' : Flow) : Prop where
  definedIn : f.definedIn = f'.definedIn
  form : f.form = f'.form
  chain : f.chain = f'.chain

/-- A flow that was made once keeps its way, and is published from file after file. -/
theorem foldl_pass_some (g : Graph) (name : String) (cs : Node → List String) (ns : List Node)
    (f : Flow) :
    ∃ f', ns.foldl (pass g name cs) (some f) = some f' ∧ SameWay f' f ∧
      f'.publicFrom = (ns.map Node.relative).foldl insertNew f.publicFrom := by
  induction ns generalizing f with
  | nil => exact ⟨f, rfl, ⟨rfl, rfl, rfl⟩, rfl⟩
  | cons n ns ih =>
    obtain ⟨f', eq, ⟨definedIn, form, chain⟩, files⟩ := ih (publish n (cs n) f)
    exact ⟨f', eq, ⟨definedIn, form, chain⟩, files⟩

/-! ### The entry files -/

/-- The node is that of an entry: it is given, or it plays that role. -/
structure IsEntry (g : Graph) (given : List String) (n : Node) : Prop where
  node : g.node? n.path = some n
  entry : n.path ∈ given ∨ n.path ∈ g.entries

/-- The nodes of the entries, in the order of their paths. -/
def entryNodes (g : Graph) (given : List String) : List Node :=
  (entryFiles g given).filterMap g.node?

theorem mem_entryFiles_iff {path : String} :
    path ∈ entryFiles g given ↔ (path ∈ given ∨ path ∈ g.entries) ∧ g.has path = true := by
  unfold entryFiles
  rw [List.mem_mergeSort, List.mem_filter, mem_foldl_insertNew, List.mem_append]
  simp

theorem mem_entryNodes_iff : n ∈ entryNodes g given ↔ IsEntry g given n := by
  unfold entryNodes
  rw [List.mem_filterMap]
  constructor
  · rintro ⟨path, listed, node⟩
    obtain rfl := Graph.path_of_node? node
    exact ⟨node, (mem_entryFiles_iff.1 listed).1⟩
  · rintro ⟨node, entry⟩
    exact ⟨n.path, mem_entryFiles_iff.2 ⟨entry, Graph.has_of_node? node⟩, node⟩

/-- The paths of the entries are in strict order, so no entry is there twice. -/
theorem pairwise_entryNodes (g : Graph) (given : List String) :
    (entryNodes g given).Pairwise fun a b => a.path < b.path := by
  have order : (entryFiles g given).Pairwise (· < ·) :=
    pairwise_lt_sorted ((nodup_foldl_insertNew List.nodup_nil).filter _)
  unfold entryNodes
  rw [List.pairwise_filterMap]
  refine order.imp ?_
  intro p q lt a ha b hb
  rw [Graph.path_of_node? ha, Graph.path_of_node? hb]
  exact lt

/-- The entries do not depend on the order in which they are given, nor on repetitions. -/
theorem entryFiles_congr {given' : List String} (same : ∀ p, p ∈ given' ↔ p ∈ given) :
    entryFiles g given' = entryFiles g given := by
  refine eq_sorted_of_perm (pairwise_sorted _) ((sorted_perm _).trans ?_)
  have once : ∀ xs : List String, ((xs.foldl insertNew []).filter g.has).Nodup :=
    fun xs => (nodup_foldl_insertNew List.nodup_nil).filter _
  rw [List.perm_ext_iff_of_nodup (once _) (once _)]
  intro p
  simp only [List.mem_filter, mem_foldl_insertNew, List.mem_append, same]

/-! ### Chains -/

/-- A trace comes through the files of a way, none of them twice. -/
theorem exists_chain (g : Graph) (a m : String) :
    ∃ hops q l, Way g a m hops q l ∧ (hopPaths hops).Nodup ∧
      (trace g a m).chain = hopRelatives hops := by
  obtain ⟨hops, q, l, way, fresh, ends⟩ := exists_end g a m
  cases ends with
  | lost dead =>
    refine ⟨hops, q, l, way, fresh.nodup, ?_⟩
    rw [(trace_of_lost way fresh dead).1]
  | defined new node first definition =>
    refine ⟨hops, q, l, way, fresh.nodup, ?_⟩
    rw [(trace_of_defined way fresh new node first definition).1]
  | @whole n e b new node first reexport next whole =>
    -- the file that exports the whole module is the last one on the way
    obtain rfl := Graph.path_of_node? node
    refine ⟨hops ++ [⟨n, e⟩], b, e.lookupName, way.concat node first reexport next, ?_, ?_⟩
    · simpa [hopPaths, List.concat_eq_append] using List.Nodup.concat new fresh.nodup
    · rw [(trace_of_whole way fresh new node first reexport next whole).1]

theorem Way.mem_nodes {a m q l : String} {hops : List Hop} (way : Way g a m hops q l) :
    ∀ h ∈ hops, h.node ∈ g.nodes := by
  induction way with
  | here =>
    intro h hh
    cases hh
  | hop node _ _ _ _ ih =>
    intro h hh
    rcases List.mem_cons.1 hh with rfl | hh
    · exact List.mem_of_find?_eq_some node
    · exact ih h hh

/-- Where no two files look alike from the root, a trace comes through no file twice as seen from
there. -/
theorem nodup_chain_trace (apart : (g.nodes.map Node.relative).Nodup) (a m : String) :
    (trace g a m).chain.Nodup := by
  obtain ⟨hops, q, l, way, nodup, chain⟩ := exists_chain g a m
  rw [chain]
  unfold hopPaths at nodup
  unfold hopRelatives
  rw [List.Nodup, List.pairwise_map] at nodup ⊢
  refine nodup.imp_of_mem ?_
  intro h k hh hk other same
  have node : h.node = k.node :=
    List.inj_on_of_nodup_map apart (way.mem_nodes h hh) (way.mem_nodes k hk) same
  exact other (congrArg Node.path node)

/-- A chain starts with the file that is asked, if it goes anywhere. -/
theorem chain_trace_cases (node : g.node? n.path = some n) (m : String) :
    (trace g n.path m).chain = [] ∨ ∃ rest, (trace g n.path m).chain = n.relative :: rest := by
  obtain ⟨hops, q, l, way, -, chain⟩ := exists_chain g n.path m
  rw [chain]
  cases way with
  | here => exact .inl rfl
  | hop node' _ _ _ _ =>
    obtain rfl := Option.some.inj (node.symm.trans node')
    exact .inr ⟨_, rfl⟩

/-- The flow from an entry leaves the entry itself out of the chain. -/
theorem chain_ofEntry (node : g.node? n.path = some n) (name : String) :
    (ofEntry g n name).chain = (trace g n.path name).chain.tail := by
  unfold ofEntry
  dsimp only
  rcases chain_trace_cases node name with none | ⟨rest, some⟩
  · simp [none]
  · simp [some]

/-- The entry is nowhere in the chain of its own flow. -/
theorem relative_notMem_chain (apart : (g.nodes.map Node.relative).Nodup)
    (node : g.node? n.path = some n) (name : String) :
    n.relative ∉ (trace g n.path name).chain.tail := by
  have nodup := nodup_chain_trace apart n.path name
  rcases chain_trace_cases node name with none | ⟨rest, some⟩
  · simp [none]
  · rw [some] at nodup ⊢
    exact (List.nodup_cons.1 nodup).1

/-- A way knows nothing of the entries that it is published from. -/
theorem publicFrom_traceFrom (g : Graph) (visited : List String) (path name : String) :
    (traceFrom g visited path name).publicFrom = [] := by
  fun_induction traceFrom g visited path name
  case case7 ih => exact ih
  all_goals rfl

/-! ### The flows -/

section

variable {map : Option ExportsMap} {excluded : List String}

theorem map_fst_all :
    (all g given map excluded).map Prod.fst =
      ((entryNodes g given).flatMap fun n => n.exports.map Export.name).foldl insertNew [] :=
  map_fst_addEntries (fun n => conditionsOf map excluded n.relative) (entryNodes g given) []

theorem flow?_all :
    flow? (all g given map excluded) name =
      ((entryNodes g given).filter fun n => decide (Gives n name)).foldl
        (pass g name fun n => conditionsOf map excluded n.relative) none :=
  flow?_addEntries g name (fun n => conditionsOf map excluded n.relative) (entryNodes g given) []

theorem nodup_map_fst_all : ((all g given map excluded).map Prod.fst).Nodup := by
  rw [map_fst_all]
  exact nodup_foldl_insertNew List.nodup_nil

/-- There is a flow for each name that an entry exports. -/
theorem mem_map_fst_all :
    name ∈ (all g given map excluded).map Prod.fst ↔ ∃ n, IsEntry g given n ∧ Gives n name := by
  rw [map_fst_all, mem_foldl_insertNew, List.mem_flatMap]
  simp only [List.not_mem_nil, false_or, mem_entryNodes_iff, List.mem_map, Gives]

/-- The flow of a name goes the way that the trace from the first file goes, and is published
from all files that export the name. -/
theorem exists_of_mem_all (h : (name, f) ∈ all g given map excluded) :
    ∃ first rest, (entryNodes g given).filter (fun n => decide (Gives n name)) = first :: rest ∧
      SameWay f (ofEntry g first name) ∧
      f.publicFrom = ((first :: rest).map Node.relative).foldl insertNew [] := by
  have found := flow?_of_mem nodup_map_fst_all h
  rw [flow?_all] at found
  cases users : (entryNodes g given).filter fun n => decide (Gives n name) with
  | nil =>
    rw [users] at found
    cases found
  | cons first rest =>
    rw [users, List.foldl_cons] at found
    obtain ⟨f', eq, way, files⟩ := foldl_pass_some g name
      (fun n => conditionsOf map excluded n.relative) rest
      (publish first (conditionsOf map excluded first.relative) (ofEntry g first name))
    obtain rfl := Option.some.inj (eq.symm.trans found)
    have fresh : (ofEntry g first name).publicFrom = [] := publicFrom_traceFrom g [] first.path name
    refine ⟨first, rest, rfl, ⟨way.definedIn, way.form, way.chain⟩, ?_⟩
    rw [files]
    show (rest.map Node.relative).foldl insertNew
      (insertNew (ofEntry g first name).publicFrom first.relative) = _
    rw [fresh]
    rfl

end

/-- **The flows of the entries.**  Let no two files of a graph look alike from the root.  There is
one flow for each name that an entry exports.  It is public from the entries that export the name,
each listed once and in the order of their paths.  From the first of them the trace of the name
gives the file and the form of the definition, and what the trace came through is the chain of the
flow, without that first entry, which is nowhere else in it; no file is there twice.  The order in
which entries are given plays no part. -/
theorem all_tells_entries (g : Graph) (given : List String) (map : Option ExportsMap)
    (excluded : List String) (apart : (g.nodes.map Node.relative).Nodup) :
    ((all g given map excluded).map Prod.fst).Nodup ∧
      (∀ name, name ∈ (all g given map excluded).map Prod.fst ↔
        ∃ n, IsEntry g given n ∧ Gives n name) ∧
      (∀ name f, (name, f) ∈ all g given map excluded →
        ∃ first rest, (first :: rest).Pairwise (fun a b => a.path < b.path) ∧
          (∀ n, n ∈ first :: rest ↔ IsEntry g given n ∧ Gives n name) ∧
          f.publicFrom = (first :: rest).map Node.relative ∧ f.publicFrom.Nodup ∧
          f.definedIn = (trace g first.path name).definedIn ∧
          f.form = (trace g first.path name).form ∧
          f.chain = (trace g first.path name).chain.tail ∧ f.chain.Nodup ∧
          first.relative ∉ f.chain) ∧
      ∀ given', (∀ p, p ∈ given' ↔ p ∈ given) →
        all g given' map excluded = all g given map excluded := by
  refine ⟨nodup_map_fst_all, fun name => mem_map_fst_all, ?_, ?_⟩
  · intro name f h
    obtain ⟨first, rest, users, way, files⟩ := exists_of_mem_all h
    have order : (first :: rest).Pairwise fun a b => a.path < b.path := by
      rw [← users]
      exact (pairwise_entryNodes g given).filter _
    have mem : ∀ n, n ∈ first :: rest ↔ IsEntry g given n ∧ Gives n name := by
      intro n
      rw [← users, List.mem_filter, mem_entryNodes_iff, decide_eq_true_eq]
    have node : g.node? first.path = some first := ((mem first).1 List.mem_cons_self).1.node
    -- distinct files have distinct paths, and these look different from the root
    have once : ((first :: rest).map Node.relative).Nodup := by
      rw [List.Nodup, List.pairwise_map]
      refine order.imp_of_mem ?_
      intro a b ha hb lt same
      have inGraph : ∀ n ∈ first :: rest, n ∈ g.nodes :=
        fun n hn => List.mem_of_find?_eq_some ((mem n).1 hn).1.node
      obtain rfl := List.inj_on_of_nodup_map apart (inGraph a ha) (inGraph b hb) same
      exact String.lt_irrefl _ lt
    have listed : f.publicFrom = (first :: rest).map Node.relative := by
      rw [files]
      have new : ([] ++ (first :: rest).map Node.relative).Nodup := once
      exact foldl_insertNew_of_nodup new
    have chain : f.chain = (trace g first.path name).chain.tail :=
      way.chain.trans (chain_ofEntry node name)
    refine ⟨first, rest, order, mem, listed, listed ▸ once, way.definedIn, way.form, chain, ?_, ?_⟩
    · rw [chain]
      exact (nodup_chain_trace apart first.path name).sublist (List.tail_sublist _)
    · rw [chain]
      exact relative_notMem_chain apart node name
  · intro given' same
    unfold all
    rw [entryFiles_congr same]

/-! ### Two entries with one name -/

/-- An entry that has a name from a barrel. -/
def borrower : Node where
  path := "/a.ts"
  relative := "a.ts"
  links :=
    { internal := [("/b.ts", [{ specifier := "./b", names := ["m"] }])]
      distinct := by decide }
  exports := [{ name := "m", isReexport := true, remote := some "m", source := some "./b" }]
  role := .entry

/-- The barrel, which passes the name on. -/
def barrel : Node where
  path := "/b.ts"
  relative := "b.ts"
  links :=
    { internal := [("/c.ts", [{ specifier := "./c", names := ["m"] }])]
      distinct := by decide }
  exports := [{ name := "m", isReexport := true, remote := some "m", source := some "./c" }]

/-- The file that the barrel has the name from. -/
def owner : Node where
  path := "/c.ts"
  relative := "c.ts"
  exports := [{ name := "m", kind := .constant }]

/-- The three files, the entry last. -/
def threeFiles : Graph := ⟨"/", [owner, barrel, borrower]⟩

theorem trace_threeFiles :
    trace threeFiles "/a.ts" "m" = { definedIn := "/c.ts", chain := ["a.ts", "b.ts"] } := by
  have way : Way threeFiles "/a.ts" "m" [⟨borrower, _⟩, ⟨barrel, _⟩] "/c.ts" "m" :=
    .hop rfl rfl rfl rfl (.hop rfl rfl rfl rfl (.here _ _))
  have fresh : Fresh [] [⟨borrower, borrower.exports.head (by decide)⟩,
      ⟨barrel, barrel.exports.head (by decide)⟩] :=
    ⟨by decide, by decide, by decide⟩
  exact (trace_of_defined way fresh (by decide) rfl rfl rfl).1

/-- With the owner given as an entry, the name has one flow from two entries.  The first of them
by path tells the way, although the other defines the name itself. -/
theorem all_tells_entries_threeFiles :
    (threeFiles.nodes.map Node.relative).Nodup ∧
      ∃ f, ("m", f) ∈ all threeFiles ["/c.ts"] none [] ∧ f.publicFrom = ["a.ts", "c.ts"] ∧
        f.definedIn = "/c.ts" ∧ f.chain = ["b.ts"] := by
  have apart : (threeFiles.nodes.map Node.relative).Nodup := by decide
  obtain ⟨-, names, tells, -⟩ := all_tells_entries threeFiles ["/c.ts"] none [] apart
  have entries : ∀ n, IsEntry threeFiles ["/c.ts"] n ∧ Gives n "m" ↔ n ∈ [borrower, owner] := by
    intro n
    constructor
    · rintro ⟨⟨node, entry⟩, -⟩
      have here : n ∈ [owner, barrel, borrower] := List.mem_of_find?_eq_some node
      simp only [List.mem_cons, List.not_mem_nil, or_false] at here ⊢
      rcases here with rfl | rfl | rfl
      · exact .inr rfl
      · exact absurd entry (by decide)
      · exact .inl rfl
    · intro h
      simp only [List.mem_cons, List.not_mem_nil, or_false] at h
      rcases h with rfl | rfl
      · exact ⟨⟨rfl, by decide⟩, by decide⟩
      · exact ⟨⟨rfl, by decide⟩, by decide⟩
  obtain ⟨⟨name, f⟩, mem, rfl⟩ := List.mem_map.1
    ((names "m").2 ⟨owner, (entries owner).2 (by decide)⟩)
  obtain ⟨first, rest, order, users, files, -, definedIn, -, chain, -, -⟩ := tells "m" f mem
  have inOrder : [borrower, owner].Pairwise fun a b => a.path < b.path := by decide
  have once : ∀ {ns : List Node}, ns.Pairwise (fun a b => a.path < b.path) → ns.Nodup := by
    intro ns h
    refine h.imp ?_
    rintro a _ lt rfl
    exact String.lt_irrefl _ lt
  have eq : first :: rest = [borrower, owner] := by
    refine List.Perm.eq_of_pairwise ?_ order inOrder
      ((List.perm_ext_iff_of_nodup (once order) (once inOrder)).2 fun n => ?_)
    · intro a b _ _ lt gt
      exact absurd (String.lt_trans lt gt) (String.lt_irrefl _)
    · rw [users, entries]
  obtain ⟨rfl, rfl⟩ := List.cons.inj eq
  refine ⟨apart, f, mem, files, ?_, ?_⟩
  · rw [definedIn]
    exact congrArg Flow.definedIn trace_threeFiles
  · rw [chain]
    exact congrArg (fun f => f.chain.tail) trace_threeFiles

end ModuleAtlas.Flow
