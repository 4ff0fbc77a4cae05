/-
ModuleAtlas/Proofs/WorkerPool.lean

Files that are done by several workers at a time.

`Builder.outcomes` does one file after the other.  Here the files are given to workers who
share what is known about specifiers, and who take turns in any order: a worker may find
that a specifier is unknown, look it up while another one does the same, and both then
store what they found.  The outcomes are collected in whatever order the workers are
done.  A `Pool` is where such a run stands, and `Pool.Step` is what can happen next; any
number of workers may be busy, so the runs of a pool of every size are among these.

What one step keeps is `Pool.Sound`: all that is known agrees with what specifiers meant
before, and every worker is on its way to what comes of its file alone.  A step also leaves
less to do (`Pool.Step.cost_lt`), and there is one until all is collected
(`Pool.Sound.exists_step`).  So every run comes to an end, and `build_order_independent`
says that the graph is the same at each of them, and for entries in any order.
-/
import Mathlib.Data.List.Count
import Mathlib.Data.List.Perm.Basic
import Mathlib.Logic.Relation
import ModuleAtlas.Analysis.Project
import ModuleAtlas.Proofs.OutcomeOrder

namespace ModuleAtlas.Builder

open Relation
open Resolution (Cache)

variable {t : FileTree} {b : Builder} {c c' : Cache} {files : List String}

/-! ### Workers -/

/-- How far a worker is with the import that is next. -/
inductive Stage where
  | untouched
  /-- Nothing was known about its specifier when the worker asked. -/
  | unknown
  /-- Something is known about its specifier. -/
  | known

/-- A worker with a file: it has to read it, or goes through the imports that are left, or is
done. -/
inductive Worker where
  | reading (path : String)
  | linking (path : String) (r : Record) (links : Links) (stage : Stage) (left : List Import)
  | done (o : Outcome)

/-- The file of a worker. -/
def Worker.path : Worker → String
  | .reading path => path
  | .linking path _ _ _ _ => path
  | .done o => o.path

/-- What a worker can do next with what is known, and what is known then.  To ask, to store
what was found and to take what is known are steps of their own, between which other workers
may do theirs. -/
inductive Worker.Step (b : Builder) (t : FileTree) : Cache → Worker → Cache → Worker → Prop
  | refuse {c : Cache} {path : String} {e : SourceError} (bad : Source.record t path = .error e) :
      Step b t c (.reading path) c (.done ⟨path, .error e⟩)
  | read {c : Cache} {path : String} {r : Record} (good : Source.record t path = .ok r) :
      Step b t c (.reading path) c (.linking path r {} .untouched r.imports)
  | package {c : Cache} {path : String} {r : Record} {links : Links} {i : Import}
      {left : List Import} {name : String} (outside : i.package = some name) :
      Step b t c (.linking path r links .untouched (i :: left))
        c (.linking path r (links.addExternal name i) .untouched left)
  | miss {c : Cache} {path : String} {r : Record} {links : Links} {i : Import}
      {left : List Import} (inside : i.package = none)
      (none : c.get? (Path.folder path) i.specifier = none) :
      Step b t c (.linking path r links .untouched (i :: left))
        c (.linking path r links .unknown (i :: left))
  | hit {c : Cache} {path : String} {r : Record} {links : Links} {i : Import}
      {left : List Import} (inside : i.package = none)
      (some : (c.get? (Path.folder path) i.specifier).isSome) :
      Step b t c (.linking path r links .untouched (i :: left))
        c (.linking path r links .known (i :: left))
  | store {c : Cache} {path : String} {r : Record} {links : Links} {i : Import}
      {left : List Import} :
      Step b t c (.linking path r links .unknown (i :: left))
        (c.learn (Path.folder path) i.specifier
          (Resolution.resolve t b.options.extensions (Path.folder path) i.specifier))
        (.linking path r links .known (i :: left))
  | take {c : Cache} {path : String} {r : Record} {links : Links} {i : Import}
      {left : List Import} {found : Option String}
      (some : c.get? (Path.folder path) i.specifier = some found) :
      Step b t c (.linking path r links .known (i :: left))
        c (.linking path r (links.put (fun _ => found) i) .untouched left)
  | finish {c : Cache} {path : String} {r : Record} {links : Links} :
      Step b t c (.linking path r links .untouched [])
        c (.done ⟨path, .ok ({ b.nodeOf t path r with links }, r.stars)⟩)

/-- A worker is on its way to what comes of its file: the imports that are left complete
its links to those of the file. -/
inductive Worker.Sound (b : Builder) (t : FileTree) (c : Cache) : Worker → Prop
  | reading (path : String) : Sound b t c (.reading path)
  | untouched {path : String} {r : Record} {links : Links} {left : List Import}
      (good : Source.record t path = .ok r)
      (rest : left.foldl (Links.put (b.meaning t (Path.folder path))) links
        = Links.ofImports (b.meaning t (Path.folder path)) r.imports) :
      Sound b t c (.linking path r links .untouched left)
  | unknown {path : String} {r : Record} {links : Links} {i : Import} {left : List Import}
      (good : Source.record t path = .ok r)
      (rest : (i :: left).foldl (Links.put (b.meaning t (Path.folder path))) links
        = Links.ofImports (b.meaning t (Path.folder path)) r.imports)
      (inside : i.package = none)
      (means : b.meaning t (Path.folder path) i.specifier
        = Resolution.resolve t b.options.extensions (Path.folder path) i.specifier) :
      Sound b t c (.linking path r links .unknown (i :: left))
  | known {path : String} {r : Record} {links : Links} {i : Import} {left : List Import}
      (good : Source.record t path = .ok r)
      (rest : (i :: left).foldl (Links.put (b.meaning t (Path.folder path))) links
        = Links.ofImports (b.meaning t (Path.folder path)) r.imports)
      (inside : i.package = none)
      (some : (c.get? (Path.folder path) i.specifier).isSome) :
      Sound b t c (.linking path r links .known (i :: left))
  | done {o : Outcome} (right : o = b.outcomeOf t o.path) : Sound b t c (.done o)

/-- All that is known in one cache is known in another. -/
def Grows (c c' : Cache) : Prop :=
  ∀ folder specifier, (c.get? folder specifier).isSome → (c'.get? folder specifier).isSome

theorem Grows.refl (c : Cache) : Grows c c := fun _ _ h => h

theorem grows_learn (c : Cache) (folder specifier : String) (found : Option String) :
    Grows c (c.learn folder specifier found) := by
  intro folder' specifier' h
  rw [Cache.get?_learn]
  split
  · rfl
  · exact h

theorem Worker.Sound.mono {w : Worker} (grows : Grows c c') (h : w.Sound b t c) :
    w.Sound b t c' := by
  cases h with
  | reading path => exact .reading path
  | untouched good rest => exact .untouched good rest
  | unknown good rest inside means => exact .unknown good rest inside means
  | known good rest inside some => exact .known good rest inside (grows _ _ some)
  | done right => exact .done right

/-- **What a step of a worker keeps**: the meaning of all specifiers, what was known, its file,
and that it is on its way to what comes of it. -/
theorem Worker.Step.sound {w w' : Worker} (step : Worker.Step b t c w c' w')
    (agrees : c.meaning t b.options.extensions = b.cache.meaning t b.options.extensions)
    (sound : w.Sound b t c) :
    c'.meaning t b.options.extensions = b.cache.meaning t b.options.extensions ∧
      Grows c c' ∧ w'.path = w.path ∧ w'.Sound b t c' := by
  cases step with
  | @refuse path e bad =>
    refine ⟨agrees, .refl _, rfl, .done ?_⟩
    rw [outcomeOf, bad, Except.map]
  | read good => exact ⟨agrees, .refl _, rfl, .untouched good rfl⟩
  | @package path r links i left name outside =>
    cases sound with
    | untouched good rest =>
      refine ⟨agrees, .refl _, rfl, .untouched good ?_⟩
      rw [← rest, List.foldl_cons, Links.put, outside]
  | miss inside none =>
    cases sound with
    | untouched good rest =>
      refine ⟨agrees, .refl _, rfl, .unknown good rest inside ?_⟩
      -- the builder did not know it either, as its meaning did not change
      rw [Builder.meaning, ← agrees, Cache.meaning, none, Option.getD_none]
  | hit inside some =>
    cases sound with
    | untouched good rest => exact ⟨agrees, .refl _, rfl, .known good rest inside some⟩
  | @store path r links i left =>
    cases sound with
    | unknown good rest inside means =>
      have grows := grows_learn c (Path.folder path) i.specifier
        (Resolution.resolve t b.options.extensions (Path.folder path) i.specifier)
      refine ⟨?_, grows, rfl, .known good rest inside ?_⟩
      · rw [← means, Builder.meaning, ← agrees, Cache.meaning_learn]
      · rw [Cache.get?_learn, if_pos rfl]
        rfl
  | @take path r links i left found some =>
    cases sound with
    | known good rest inside isSome =>
      refine ⟨agrees, .refl _, rfl, .untouched good ?_⟩
      have means : found = b.meaning t (Path.folder path) i.specifier := by
        rw [Builder.meaning, ← agrees, Cache.meaning_of_get? some]
      rw [← rest, List.foldl_cons, Links.put_congr links means]
  | @finish path r links =>
    cases sound with
    | untouched good rest =>
      refine ⟨agrees, .refl _, rfl, .done ?_⟩
      obtain rfl : links = _ := rest
      rw [outcomeOf, good, Except.map]
      rfl

/-- A worker that is not done can go on. -/
theorem Worker.Sound.exists_step {w : Worker} (sound : w.Sound b t c) :
    (∃ o, w = .done o) ∨ ∃ c' w', Worker.Step b t c w c' w' := by
  cases sound with
  | reading path =>
    right
    rcases e : Source.record t path with error | r
    · exact ⟨c, _, .refuse e⟩
    · exact ⟨c, _, .read e⟩
  | @untouched path r links left good rest =>
    right
    cases left with
    | nil => exact ⟨c, _, .finish⟩
    | cons i left =>
      rcases outside : i.package with - | name
      · rcases known : c.get? (Path.folder path) i.specifier with - | found
        · exact ⟨c, _, .miss outside known⟩
        · exact ⟨c, _, .hit outside (by rw [known]; rfl)⟩
      · exact ⟨c, _, .package outside⟩
  | unknown good rest inside means => exact .inr ⟨_, _, .store⟩
  | known good rest inside some =>
    obtain ⟨found, known⟩ := Option.isSome_iff_exists.1 some
    exact .inr ⟨c, _, .take known⟩
  | done right => exact .inl ⟨_, rfl⟩

/-! ### Pools -/

/-- Where a run stands: the files that no worker has yet, the workers, the outcomes in the
order in which they were collected, and what is known about specifiers. -/
structure Pool where
  waiting : List String
  workers : List Worker
  collected : List Outcome
  cache : Cache

namespace Pool

/-- A run starts with what the builder knows. -/
def start (b : Builder) (files : List String) : Pool := ⟨files, [], [], b.cache⟩

/-- What can happen next: the first file that waits gets a worker, a worker goes on, or the
outcome of one that is done is collected. -/
inductive Step (b : Builder) (t : FileTree) : Pool → Pool → Prop
  | begin {path : String} {waiting : List String} {ws : List Worker} {os : List Outcome}
      {c : Cache} :
      Step b t ⟨path :: waiting, ws, os, c⟩ ⟨waiting, .reading path :: ws, os, c⟩
  | work {waiting : List String} (ws : List Worker) {ws' : List Worker} {os : List Outcome}
      {c c' : Cache} {w w' : Worker} (step : Worker.Step b t c w c' w') :
      Step b t ⟨waiting, ws ++ w :: ws', os, c⟩ ⟨waiting, ws ++ w' :: ws', os, c'⟩
  | collect {waiting : List String} (ws : List Worker) {ws' : List Worker} {os : List Outcome}
      {c : Cache} {o : Outcome} :
      Step b t ⟨waiting, ws ++ .done o :: ws', os, c⟩ ⟨waiting, ws ++ ws', os ++ [o], c⟩

/-- Any number of steps. -/
abbrev Run (b : Builder) (t : FileTree) : Pool → Pool → Prop := ReflTransGen (Step b t)

/-- All outcomes are collected. -/
def Finished (p : Pool) : Prop := p.waiting = [] ∧ p.workers = []

/-- What every run keeps. -/
structure Sound (b : Builder) (t : FileTree) (files : List String) (p : Pool) : Prop where
  meaning : p.cache.meaning t b.options.extensions = b.cache.meaning t b.options.extensions
  workers : ∀ w ∈ p.workers, w.Sound b t p.cache
  collected : Right b t p.collected
  files : (p.waiting ++ (p.workers.map Worker.path ++ p.collected.map Outcome.path)).Perm files

theorem sound_start (b : Builder) (t : FileTree) (files : List String) :
    Sound b t files (start b files) where
  meaning := rfl
  workers := by simp [start]
  collected := by simp [start, Right]
  files := by simp [start]

/-- **What a step keeps.** -/
theorem Step.sound {p p' : Pool} (step : Step b t p p') (sound : Sound b t files p) :
    Sound b t files p' := by
  obtain ⟨meaning, workers, collected, all⟩ := sound
  cases step with
  | begin =>
    refine ⟨meaning, ?_, collected, ?_⟩
    · intro w hw
      rcases List.mem_cons.1 hw with rfl | hw
      · exact .reading _
      · exact workers w hw
    · refine List.Perm.trans ?_ all
      simp [Worker.path]
  | work ws step =>
    obtain ⟨meaning', grows, path, sound⟩ := step.sound meaning (workers _ (by simp))
    refine ⟨meaning', ?_, collected, ?_⟩
    · intro w hw
      rcases List.mem_append.1 hw with hw | hw
      · exact (workers w (List.mem_append_left _ hw)).mono grows
      · rcases List.mem_cons.1 hw with rfl | hw
        · exact sound
        · exact (workers w (List.mem_append_right _ (List.mem_cons_of_mem _ hw))).mono grows
    · simpa [path] using all
  | @collect waiting ws ws' os c o =>
    refine ⟨meaning, ?_, ?_, ?_⟩
    · intro w hw
      refine workers w ?_
      rcases List.mem_append.1 hw with hw | hw
      · exact List.mem_append_left _ hw
      · exact List.mem_append_right _ (List.mem_cons_of_mem _ hw)
    · intro o' ho'
      rcases List.mem_append.1 ho' with ho' | ho'
      · exact collected o' ho'
      · obtain rfl := List.mem_singleton.1 ho'
        cases workers (.done o') (by simp) with
        | done right => exact right
    · -- the file of the worker is now that of the outcome, at the end of the list
      refine List.Perm.trans ?_ all
      rw [List.perm_iff_count]
      intro path
      simp only [List.map_append, List.map_cons, List.map_nil, List.count_append, List.count_cons,
        Worker.path, List.count_nil]
      omega

theorem Run.sound {p : Pool} (run : Run b t (start b files) p) : Sound b t files p := by
  induction run with
  | refl => exact sound_start b t files
  | tail _ step ih => exact step.sound ih

/-! ### Runs come to an end -/

end Pool

/-- How many steps the reading of a file takes at most, the collection included. -/
def readingCost : Except SourceError Record → Nat
  | .error _ => 2
  | .ok r => 3 * r.imports.length + 3

/-- How many steps a worker has to do at most, its collection included. -/
def Worker.cost (t : FileTree) : Worker → Nat
  | .reading path => readingCost (Source.record t path)
  | .linking _ _ _ .untouched left => 3 * left.length + 2
  | .linking _ _ _ .unknown left => 3 * left.length + 1
  | .linking _ _ _ .known left => 3 * left.length
  | .done _ => 1

theorem Worker.Step.cost_lt {w w' : Worker} (step : Worker.Step b t c w c' w') :
    w'.cost t < w.cost t := by
  cases step with
  | refuse bad => simp [Worker.cost, readingCost, bad]
  | read good => simp [Worker.cost, readingCost, good]
  | _ =>
    simp only [Worker.cost, List.length_cons, List.length_nil]
    omega

namespace Pool

/-- How many steps some workers have to do at most. -/
def load (t : FileTree) : List Worker → Nat
  | [] => 0
  | w :: ws => w.cost t + load t ws

theorem load_append (t : FileTree) (ws ws' : List Worker) :
    load t (ws ++ ws') = load t ws + load t ws' := by
  induction ws with
  | nil => simp [load]
  | cons w ws ih => simp only [List.cons_append, load, ih, Nat.add_assoc]

/-- How many steps are left at most. -/
def cost (t : FileTree) (p : Pool) : Nat :=
  p.waiting.length + load t (p.waiting.map .reading) + load t p.workers

/-- A step leaves less to do. -/
theorem Step.cost_lt {p p' : Pool} (step : Step b t p p') : p'.cost t < p.cost t := by
  cases step with
  | begin =>
    simp only [cost, List.map_cons, List.length_cons, load]
    omega
  | work ws step =>
    have less := step.cost_lt
    simp only [cost, load_append, load]
    omega
  | collect =>
    simp only [cost, load_append, load, Worker.cost]
    omega

/-- Until all is collected there is something to do. -/
theorem Sound.exists_step {p : Pool} (sound : Sound b t files p) :
    p.Finished ∨ ∃ p', Step b t p p' := by
  obtain ⟨waiting, workers, os, c⟩ := p
  cases waiting with
  | cons path waiting => exact .inr ⟨_, .begin⟩
  | nil =>
    cases workers with
    | nil => exact .inl ⟨rfl, rfl⟩
    | cons w ws =>
      right
      rcases (sound.workers w List.mem_cons_self).exists_step with ⟨o, rfl⟩ | ⟨c', w', step⟩
      · exact ⟨_, .collect []⟩
      · exact ⟨_, .work [] step⟩

/-- Every run can go on until all is collected. -/
theorem Sound.exists_finished {p : Pool} (sound : Sound b t files p) :
    ∃ p', Run b t p p' ∧ p'.Finished := by
  induction left : p.cost t using Nat.strongRecOn generalizing p with
  | _ n ih =>
    rcases sound.exists_step with finished | ⟨p', step⟩
    · exact ⟨p, .refl, finished⟩
    · obtain ⟨p'', run, finished⟩ := ih _ (left ▸ step.cost_lt) (step.sound sound) rfl
      exact ⟨p'', .head step run, finished⟩

/-- What is collected at the end is what comes of each file, in some order. -/
theorem Sound.perm_of_finished {p : Pool} (sound : Sound b t files p) (finished : p.Finished) :
    p.collected.Perm (files.map (b.outcomeOf t)) := by
  have perm : (p.collected.map Outcome.path).Perm files := by
    simpa [finished.1, finished.2] using sound.files
  have self : p.collected = (p.collected.map Outcome.path).map (b.outcomeOf t) := by
    rw [List.map_map]
    conv_lhs => rw [← List.map_id p.collected]
    exact List.map_congr_left sound.collected
  rw [self]
  exact perm.map _

end Pool

/-! ### The result of a run -/

theorem warningsOf_perm {os os' : List Outcome} (root : String) (perm : os.Perm os') :
    (warningsOf root os).Perm (warningsOf root os') := by
  have skipped := perm.filterMap (Outcome.warning? root)
  unfold warningsOf
  dsimp only
  rw [skipped.isEmpty_eq, skipped.length_eq]
  split
  · exact .nil
  · exact skipped.append_right _

/-- **The order of the work does not matter.**  Let the files that are found be given to
workers, and the entries be given in any order and any number of times.  However the workers
take turns, the run can go on until all outcomes are collected; and then they make the graph
of the build that does one file after the other, with all that follows from it.  Its files are
those found that have a record, in the order in which they were found, and it goes on without
the same files. -/
theorem build_order_independent (b : Builder) (t : FileTree) {given entries : List String}
    (same : ∀ e, e ∈ given ↔ e ∈ entries) {p : Pool}
    (run : Pool.Run b t (Pool.start b (Discovery.files t b.search)) p) :
    (∃ p', Pool.Run b t p p' ∧ p'.Finished) ∧
      (p.Finished →
        b.assemble given (Discovery.files t b.search) p.collected = (b.build t entries).1 ∧
        (∀ m package options,
          Analysis.derive m package options
              (b.assemble given (Discovery.files t b.search) p.collected)
            = Analysis.derive m package options (b.build t entries).1) ∧
        (b.build t entries).1.paths
          = (Discovery.files t b.search).filter (fun path => (Source.record t path).isOk) ∧
        (warningsOf b.root p.collected).Perm (b.build t entries).2.1) := by
  have sound := run.sound
  refine ⟨sound.exists_finished, fun finished => ?_⟩
  obtain ⟨graph, warnings⟩ := build_eq b t entries
  have perm := sound.perm_of_finished finished
  have done : ∀ path, path ∈ p.collected.map Outcome.path ↔ path ∈ Discovery.files t b.search := by
    intro path
    rw [(perm.map _).mem_iff, map_path_map_outcomeOf]
  have eq : b.assemble given (Discovery.files t b.search) p.collected = (b.build t entries).1 := by
    rw [graph]
    exact assemble_eq sound.collected done same
  refine ⟨eq, fun m package options => by rw [eq], ?_, ?_⟩
  · rw [← eq]
    exact paths_assemble given sound.collected fun path hp => (done path).2 hp
  · rw [warnings]
    exact warningsOf_perm b.root perm

/-- A file with a star export of another one, in a folder beside it. -/
def twoFiles : FileTree :=
  .folder
    [("index.ts", .file "export*from'./lib/x'".toUTF8.toList),
     ("lib", .folder [("x.ts", .file "export var n".toUTF8.toList)])]

/-- The second of two files is done before the first, and the entries are given in another
order. -/
theorem build_order_independent_two_files :
    ∃ p, Pool.Run ({ root := "/" } : Builder) twoFiles
        (Pool.start { root := "/" } ["/index.ts", "/lib/x.ts"]) p ∧
      p.collected.map Outcome.path = ["/lib/x.ts", "/index.ts"] ∧
      Builder.assemble { root := "/" } ["lib/x.ts", "index.ts", "lib/x.ts"]
          ["/index.ts", "/lib/x.ts"] p.collected
        = (Builder.build { root := "/" } twoFiles ["index.ts", "lib/x.ts"]).1 := by
  have found : Discovery.files twoFiles ({ root := "/" } : Builder).search
      = ["/index.ts", "/lib/x.ts"] := by decide +kernel
  have same : ∀ e, e ∈ ["lib/x.ts", "index.ts", "lib/x.ts"] ↔ e ∈ ["index.ts", "lib/x.ts"] := by
    simp
  have readX : Source.record twoFiles "/lib/x.ts" = .ok
      { exports := [{ name := "n", kind := .variable, pos := ⟨1, 12⟩ }], lineCount := 1 } := by
    with_unfolding_all rfl
  have readIndex : Source.record twoFiles "/index.ts" = .ok
      { imports := [{ specifier := "./lib/x", names := ["*"] }]
        stars := ["./lib/x"]
        lineCount := 1 } := by
    with_unfolding_all rfl
  have run : Pool.Run ({ root := "/" } : Builder) twoFiles
      (Pool.start { root := "/" } ["/index.ts", "/lib/x.ts"]) ⟨[], [], _, _⟩ :=
    .head .begin <| .head .begin <|
    -- the worker with the second file is done first
    .head (.work [] (.read readX)) <| .head (.work [] .finish) <|
    .head (.collect []) <|
    .head (.work [] (.read readIndex)) <| .head (.work [] (.miss rfl rfl)) <|
    .head (.work [] .store) <|
    .head (.work [] (.take (by rw [Cache.get?_learn, if_pos rfl]))) <|
    .head (.work [] .finish) <| .single (.collect [])
  refine ⟨_, run, rfl, ?_⟩
  rw [← found] at run ⊢
  exact ((build_order_independent _ twoFiles same run).2 ⟨rfl, rfl⟩).1

end ModuleAtlas.Builder
