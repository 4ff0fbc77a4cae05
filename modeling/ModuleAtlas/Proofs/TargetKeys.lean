/-
ModuleAtlas/Proofs/TargetKeys.lean

When a target stands for a source.

Sources and outputs are compared by their keys, which are made of text alone: a suffix is cut off,
and then a folder in front.  `splitSuffix_cases` and `stem_cases` say what is cut off, and
`exists_stem` that it is part of the last segment and starts with a dot.  So keys of texts with the
same folders in front are the same exactly if their stems are (`keyParts_eq_iff`), and the key of a
text is never that of an index below it (`keyParts_index_ne`).
-/
import ModuleAtlas.Proofs.PlainPath

namespace ModuleAtlas

namespace Path

variable {cs tail w : List Char}

/-! ### Last segments -/

/-- The last segment of a text. -/
def lastOf (cs : List Char) : List Char := (cs.reverse.takeWhile (· != '/')).reverse

theorem lastOf_append (cs : List Char) (single : '/' ∉ w) : lastOf (cs ++ w) = lastOf cs ++ w := by
  have all : ∀ c ∈ w.reverse, (c != '/') = true := by
    intro c hc
    have other : c ≠ '/' := fun h => single (h ▸ List.mem_reverse.1 hc)
    simpa using other
  unfold lastOf
  rw [List.reverse_append, List.takeWhile_append_of_pos all, List.reverse_append,
    List.reverse_reverse]

theorem notMem_lastOf (cs : List Char) : '/' ∉ lastOf cs := by
  intro h
  have inside := List.all_eq_true.1 List.all_takeWhile _ (List.mem_reverse.1 h)
  simp at inside

/-- A text is what stands before its last segment, and that. -/
theorem exists_eq_append_lastOf (cs : List Char) :
    ∃ folder, cs = folder ++ lastOf cs ∧ lastOf folder = [] := by
  refine ⟨(cs.reverse.dropWhile (· != '/')).reverse, ?_, ?_⟩
  · unfold lastOf
    rw [← List.reverse_append, List.takeWhile_append_dropWhile, List.reverse_reverse]
  · unfold lastOf
    rw [List.reverse_reverse, List.reverse_eq_nil_iff]
    rcases rest : cs.reverse.dropWhile (· != '/') with - | ⟨c, more⟩
    · rfl
    · have stops := List.head_dropWhile_not (· != '/') (l := cs.reverse) (by rw [rest]; simp)
      simp only [rest, List.head_cons] at stops
      rw [List.takeWhile_cons, stops]
      rfl

/-! ### Suffixes -/

/-- Where a last segment has a dot, it has a suffix unless only dots stand before that. -/
theorem splitSuffix_of_dot (cs : List Char) (last : '.' ∉ tail) (single : '/' ∉ tail) :
    splitSuffix (String.ofList (cs ++ '.' :: tail)) =
      if (lastOf cs).any (· != '.') then (String.ofList cs, String.ofList ('.' :: tail))
      else (String.ofList (cs ++ '.' :: tail), "") := by
  have segment : lastOf (cs ++ '.' :: tail) = lastOf cs ++ '.' :: tail := by
    apply lastOf_append
    simpa using single
  have cut : ((lastOf cs ++ '.' :: tail).reverse.takeWhile (· != '.')).reverse = tail := by
    have all : ∀ c ∈ tail.reverse, (c != '.') = true := by
      intro c hc
      have other : c ≠ '.' := fun h => last (h ▸ List.mem_reverse.1 hc)
      simpa using other
    rw [List.reverse_append, List.reverse_cons, List.append_assoc,
      List.takeWhile_append_of_pos all]
    simp
  have before : (lastOf cs ++ '.' :: tail).length - tail.length - 1 = (lastOf cs).length := by
    simp only [List.length_append, List.length_cons]
    omega
  have size : (cs ++ '.' :: tail).length - tail.length - 1 = cs.length := by
    simp only [List.length_append, List.length_cons]
    omega
  unfold splitSuffix
  rw [String.toList_ofList]
  unfold lastOf at segment cut before ⊢
  simp only [segment, cut, before, size, List.take_left', List.drop_left']
  simp

theorem splitSuffix_of_notMem (bare : '.' ∉ lastOf cs) :
    splitSuffix (String.ofList cs) = (String.ofList cs, "") := by
  unfold splitSuffix
  rw [String.toList_ofList]
  dsimp only
  rw [if_neg]
  intro dotted
  rw [Bool.and_eq_true] at dotted
  exact bare (List.contains_iff_mem.1 dotted.1)

/-- **What a suffix is**: nothing, or the last dot of a segment and what is behind it, where the
segment does not only have dots before it. -/
theorem splitSuffix_cases (cs : List Char) :
    splitSuffix (String.ofList cs) = (String.ofList cs, "") ∨
      ∃ stem tail, cs = stem ++ '.' :: tail ∧ '.' ∉ tail ∧ '/' ∉ tail ∧
        (∃ c ∈ lastOf stem, c ≠ '.') ∧
        splitSuffix (String.ofList cs) = (String.ofList stem, String.ofList ('.' :: tail)) := by
  by_cases dotted : '.' ∈ lastOf cs
  · obtain ⟨after, before, eq, none⟩ := List.eq_append_cons_of_mem (List.mem_reverse.2 dotted)
    obtain ⟨folder, whole, -⟩ := exists_eq_append_lastOf cs
    have last : lastOf cs = before.reverse ++ '.' :: after.reverse := by
      rw [← List.reverse_reverse (lastOf cs), eq]
      simp
    have cut : cs = (folder ++ before.reverse) ++ '.' :: after.reverse := by
      rw [List.append_assoc, ← last, ← whole]
    have none' : '.' ∉ after.reverse := fun h => none (List.mem_reverse.1 h)
    have single : '/' ∉ after.reverse := by
      intro h
      apply notMem_lastOf cs
      rw [last]
      exact List.mem_append_right _ (List.mem_cons_of_mem _ h)
    have split := splitSuffix_of_dot (folder ++ before.reverse) none' single
    rw [← cut] at split
    by_cases named : (lastOf (folder ++ before.reverse)).any (· != '.') = true
    · obtain ⟨c, hc, other⟩ := List.any_eq_true.1 named
      rw [if_pos named] at split
      exact .inr ⟨_, _, cut, none', single, ⟨c, hc, by simpa using other⟩, split⟩
    · rw [if_neg named] at split
      exact .inl split
  · exact .inl (splitSuffix_of_notMem dotted)

theorem splitSuffix_append (last : '.' ∉ tail) (single : '/' ∉ tail)
    (named : ∃ c ∈ lastOf cs, c ≠ '.') :
    splitSuffix (String.ofList (cs ++ '.' :: tail)) =
      (String.ofList cs, String.ofList ('.' :: tail)) := by
  obtain ⟨c, hc, other⟩ := named
  rw [splitSuffix_of_dot cs last single, if_pos]
  exact List.any_eq_true.2 ⟨c, hc, by simpa using other⟩

/-- The last dot cuts a text in one way. -/
theorem append_dot_inj {cs' tail' : List Char} (last : '.' ∉ tail) (last' : '.' ∉ tail')
    (eq : cs ++ '.' :: tail = cs' ++ '.' :: tail') : cs = cs' ∧ tail = tail' := by
  rcases List.append_eq_append_iff.1 eq with ⟨more, rfl, rest⟩ | ⟨more, rfl, rest⟩
  · cases more with
    | nil =>
      rw [List.append_nil]
      exact ⟨rfl, (List.cons.inj rest).2⟩
    | cons c more =>
      rw [List.cons_append] at rest
      rw [(List.cons.inj rest).2] at last
      exact absurd (List.mem_append_right _ List.mem_cons_self) last
  · cases more with
    | nil =>
      rw [List.append_nil]
      exact ⟨rfl, (List.cons.inj rest).2.symm⟩
    | cons c more =>
      rw [List.cons_append] at rest
      rw [(List.cons.inj rest).2] at last'
      exact absurd (List.mem_append_right _ List.mem_cons_self) last'

/-! ### Texts with something added -/

theorem lastOf_append_of_nil {folder : List Char} (none : lastOf folder = []) (cs : List Char) :
    lastOf (folder ++ cs) = lastOf cs := by
  unfold lastOf at none ⊢
  rw [List.reverse_eq_nil_iff] at none
  rw [List.reverse_append, List.takeWhile_append, none, List.append_nil]
  split
  · next all =>
    rw [(List.takeWhile_sublist _).eq_of_length all]
  · rfl

theorem lastOf_flatMap (folders : List (List Char)) :
    lastOf (folders.flatMap (· ++ ['/'])) = [] := by
  rcases List.eq_nil_or_concat folders with rfl | ⟨more, folder, rfl⟩
  · rfl
  · unfold lastOf
    rw [List.concat_eq_append, List.flatMap_append]
    simp

theorem exists_split_append (cs : List Char) :
    ∃ folders last, ∀ w, '/' ∉ w → segments (cs ++ w) = folders ++ [last ++ w] := by
  unfold segments
  induction cs with
  | nil => exact ⟨[], [], fun w single => Text.split_of_notMem single⟩
  | cons c cs ih =>
    obtain ⟨folders, last, eq⟩ := ih
    by_cases here : c = '/'
    · refine ⟨[] :: folders, last, fun w single => ?_⟩
      rw [here, List.cons_append, Text.split_cons_self, eq w single]
      rfl
    · cases folders with
      | nil =>
        refine ⟨[], c :: last, fun w single => ?_⟩
        rw [List.cons_append, Text.split_cons_of_ne here, eq w single]
        rfl
      | cons p folders =>
        refine ⟨(c :: p) :: folders, last, fun w single => ?_⟩
        rw [List.cons_append, Text.split_cons_of_ne here, eq w single]
        rfl

/-- **What is added to a text** is added to its last segment. -/
theorem exists_segments_append (cs : List Char) :
    ∃ folders, segments cs = folders ++ [lastOf cs] ∧
      ∀ w, '/' ∉ w → segments (cs ++ w) = folders ++ [lastOf cs ++ w] := by
  obtain ⟨folders, last, eq⟩ := exists_split_append cs
  have whole : segments cs = folders ++ [last] := by
    have alone := eq [] List.not_mem_nil
    rwa [List.append_nil, List.append_nil] at alone
  have single : '/' ∉ last := by
    apply Text.notMem_of_mem_split (s := cs)
    show last ∈ segments cs
    rw [whole]
    exact List.mem_append_right _ (List.mem_singleton.2 rfl)
  have lastOf_eq : lastOf cs = last := by
    have joined : ofSegments (folders ++ segments last) = folders.flatMap (· ++ ['/']) ++ last :=
      ofSegments_append folders last
    have alone : segments last = [last] := Text.split_of_notMem single
    rw [← ofSegments_segments cs, whole, ← alone, joined, lastOf_append _ single, lastOf_flatMap,
      List.nil_append]
  rw [lastOf_eq]
  exact ⟨folders, whole, eq⟩

end Path

namespace Target

open ModuleAtlas.Path (lastOf segments ofSegments IsPlain)

variable {cs tail v v' : List Char} {target : String}

/-! ### Stems -/

/-- The text without its suffix. -/
def stem (cs : List Char) : List Char := (withoutSuffix (String.ofList cs)).toList

/-- The suffixes of sources that a declaration can have behind its mark. -/
def declared : List (List Char) := [['t', 's'], ['m', 't', 's'], ['c', 't', 's']]

/-- **What a stem is**: the text before the suffix of a declaration, or before any other one. -/
theorem stem_cases (cs : List Char) :
    (∃ front, ∃ s ∈ declared, cs = front ++ ['.', 'd'] ++ '.' :: s ∧ stem cs = front) ∨
      (∀ front, ∀ s ∈ declared, cs ≠ front ++ ['.', 'd'] ++ '.' :: s) ∧
        stem cs = (Path.splitSuffix (String.ofList cs)).1.toList := by
  unfold stem withoutSuffix
  rcases found : declarationSuffixes.find? (Text.endsIn (String.ofList cs)) with - | suffix
  · refine .inr ⟨?_, rfl⟩
    rintro front s hs rfl
    have listed : ∀ s ∈ declared, String.ofList ('.' :: 'd' :: '.' :: s) ∈ declarationSuffixes := by
      decide
    have ends := List.find?_eq_none.1 found _ (listed s hs)
    apply ends
    unfold Text.endsIn
    rw [String.toList_ofList, String.toList_ofList, List.isSuffixOf_iff_suffix]
    exact ⟨front, by simp⟩
  · have mem := List.mem_of_find?_eq_some found
    have ends := List.find?_some found
    unfold Text.endsIn at ends
    rw [String.toList_ofList, List.isSuffixOf_iff_suffix] at ends
    obtain ⟨front, rfl⟩ := ends
    have shape : ∀ suffix ∈ declarationSuffixes,
        ∃ s ∈ declared, suffix.toList = ['.', 'd'] ++ '.' :: s := by
      decide
    obtain ⟨s, hs, eq⟩ := shape suffix mem
    refine .inl ⟨front, s, hs, by rw [eq, List.append_assoc], ?_⟩
    rw [String.toList_ofList, String.toList_ofList]
    simp

theorem notMem_of_mem_declared {s : List Char} (hs : s ∈ declared) : '.' ∉ s ∧ '/' ∉ s := by
  have all : ∀ s ∈ declared, '.' ∉ s ∧ '/' ∉ s := by decide
  exact all s hs

/-- What is cut off a text is part of its last segment, and starts with a dot. -/
theorem exists_stem (cs : List Char) :
    ∃ suffix, cs = stem cs ++ suffix ∧ '/' ∉ suffix ∧ (suffix = [] ∨ ∃ w, suffix = '.' :: w) := by
  rcases stem_cases cs with ⟨front, s, hs, whole, eq⟩ | ⟨-, eq⟩
  · refine ⟨['.', 'd'] ++ '.' :: s, ?_, ?_, .inr ⟨_, rfl⟩⟩
    · rw [eq, ← List.append_assoc]
      exact whole
    · simpa using (notMem_of_mem_declared hs).2
  · rcases Path.splitSuffix_cases cs with none | ⟨front, tail, whole, -, single, -, split⟩
    · refine ⟨[], ?_, List.not_mem_nil, .inl rfl⟩
      rw [eq, none, String.toList_ofList, List.append_nil]
    · refine ⟨'.' :: tail, ?_, by simpa using single, .inr ⟨tail, rfl⟩⟩
      rw [eq, split, String.toList_ofList]
      exact whole

theorem stem_declaration (front : List Char) {s : List Char} (hs : s ∈ declared) :
    stem (front ++ ['.', 'd'] ++ '.' :: s) = front := by
  rcases stem_cases (front ++ ['.', 'd'] ++ '.' :: s) with ⟨front', s', hs', whole, eq⟩ | ⟨none, -⟩
  · have same := Path.append_dot_inj (notMem_of_mem_declared hs).1 (notMem_of_mem_declared hs').1 whole
    rw [eq]
    exact (List.append_cancel_right same.1).symm
  · exact absurd rfl (none front s hs)

/-- A suffix goes off again, unless it makes a declaration of the text. -/
theorem stem_append (last : '.' ∉ tail) (single : '/' ∉ tail) (named : ∃ c ∈ lastOf cs, c ≠ '.')
    (undeclared : tail ∈ declared → ∀ front, cs ≠ front ++ ['.', 'd']) :
    stem (cs ++ '.' :: tail) = cs := by
  rcases stem_cases (cs ++ '.' :: tail) with ⟨front, s, hs, whole, -⟩ | ⟨-, eq⟩
  · obtain ⟨front_eq, rfl⟩ := Path.append_dot_inj last (notMem_of_mem_declared hs).1 whole
    exact absurd front_eq (undeclared hs front)
  · rw [eq, Path.splitSuffix_append last single named, String.toList_ofList]

theorem stem_of_notMem (bare : '.' ∉ lastOf cs) : stem cs = cs := by
  rcases stem_cases cs with ⟨front, s, hs, whole, -⟩ | ⟨-, eq⟩
  · have single : '/' ∉ '.' :: s := by simpa using (notMem_of_mem_declared hs).2
    rw [whole, Path.lastOf_append _ single] at bare
    exact absurd (List.mem_append_right _ List.mem_cons_self) bare
  · rw [eq, Path.splitSuffix_of_notMem bare, String.toList_ofList]

/-! ### Keys -/

/-- The segments of the key of a text. -/
def keyParts (cs : List Char) : List (List Char) := withoutRoot (segments (stem cs))

/-- The folders without the first one, if sources or outputs lie in it. -/
def withoutFirst : List (List Char) → List (List Char)
  | [] => []
  | first :: rest => if roots.contains (String.ofList first) then rest else first :: rest

theorem withoutRoot_append (folders : List (List Char)) (last : List Char) :
    withoutRoot (folders ++ [last]) = withoutFirst folders ++ [last] := by
  cases folders with
  | nil => rfl
  | cons first rest =>
    cases rest <;>
    · simp only [List.cons_append, List.nil_append, withoutRoot, withoutFirst]
      split <;> rfl

/-- The key of a text has the folders of the text and the stem of its last segment. -/
theorem exists_keyParts (cs : List Char) :
    ∃ folders last suffix, segments cs = folders ++ [last ++ suffix] ∧
      segments (stem cs) = folders ++ [last] ∧ keyParts cs = withoutFirst folders ++ [last] ∧
      (suffix = [] ∨ ∃ w, suffix = '.' :: w) := by
  obtain ⟨suffix, whole, single, dot⟩ := exists_stem cs
  obtain ⟨folders, here, append⟩ := Path.exists_segments_append (stem cs)
  refine ⟨folders, lastOf (stem cs), suffix, ?_, here, ?_, dot⟩
  · rw [← append suffix single, ← whole]
  · unfold keyParts
    rw [here, withoutRoot_append]

/-- **Keys in one folder** are the same exactly if the stems are. -/
theorem keyParts_eq_iff {cs' : List Char} {folders : List (List Char)} {last last' : List Char}
    (here : segments cs = folders ++ [last]) (here' : segments cs' = folders ++ [last']) :
    keyParts cs = keyParts cs' ↔ stem cs = stem cs' := by
  constructor
  · intro same
    obtain ⟨fs, l, suffix, split, stems, keys, -⟩ := exists_keyParts cs
    obtain ⟨fs', l', suffix', split', stems', keys', -⟩ := exists_keyParts cs'
    obtain ⟨rfl, -⟩ := List.append_inj' (here.symm.trans split) rfl
    obtain ⟨rfl, -⟩ := List.append_inj' (here'.symm.trans split') rfl
    rw [keys, keys'] at same
    rw [← Path.ofSegments_segments (stem cs), ← Path.ofSegments_segments (stem cs'), stems, stems',
      List.append_cancel_left same]
  · intro same
    unfold keyParts
    rw [same]

/-- What has no dot in it is not cut by a suffix. -/
theorem prefix_of_append_eq {last suffix a b : List Char}
    (dot : suffix = [] ∨ ∃ w, suffix = '.' :: w) (free : '.' ∉ a) (eq : last ++ suffix = a ++ b) :
    a <+: last := by
  rcases List.append_eq_append_iff.1 eq with ⟨more, rfl, rest⟩ | ⟨more, rfl, -⟩
  · cases more with
    | nil => exact ⟨[], by simp⟩
    | cons c more =>
      rcases dot with rfl | ⟨w, rfl⟩
      · cases rest
      · obtain ⟨rfl, -⟩ := List.cons.inj rest
        exact absurd (List.mem_append_right _ List.mem_cons_self) free
  · exact List.prefix_append a more

/-- **An index has a key of its own**, not that of the folder it stands in. -/
theorem keyParts_index_ne (cs : List Char) {e : List Char} (single : '/' ∉ e) :
    keyParts (cs ++ '/' :: ("index".toList ++ e)) ≠ keyParts cs := by
  obtain ⟨folders, last, suffix, split, -, keys, -⟩ := exists_keyParts cs
  obtain ⟨folders', last', suffix', split', -, keys', dot⟩ :=
    exists_keyParts (cs ++ '/' :: ("index".toList ++ e))
  have parts : segments (cs ++ '/' :: ("index".toList ++ e)) =
      (folders ++ [last ++ suffix]) ++ ["index".toList ++ e] := by
    have name : '/' ∉ "index".toList ++ e := by
      rw [List.mem_append, not_or]
      exact ⟨by decide, single⟩
    have cut : segments (cs ++ '/' :: ("index".toList ++ e)) =
        segments cs ++ segments ("index".toList ++ e) := Text.split_append '/' cs _
    have alone : segments ("index".toList ++ e) = ["index".toList ++ e] :=
      Text.split_of_notMem name
    rw [cut, alone, split]
  obtain ⟨rfl, named⟩ := List.append_inj' (split'.symm.trans parts) rfl
  intro same
  rw [keys, keys'] at same
  obtain ⟨folders_eq, last_eq⟩ := List.append_inj' same rfl
  obtain rfl : last' = last := (List.cons.inj last_eq).1
  cases folders with
  | cons p ps =>
    -- the first folder is left out of both keys or of none
    have length := congrArg List.length folders_eq
    simp only [List.cons_append, withoutFirst] at length
    split at length <;> simp at length
  | nil =>
    -- the folder would have to be left out, and its name to start as that of the index
    have root : roots.contains (String.ofList (last' ++ suffix)) = true := by
      rw [List.nil_append, withoutFirst, withoutFirst] at folders_eq
      split at folders_eq
      · assumption
      · cases folders_eq
    have starts : "index".toList <+: last' :=
      prefix_of_append_eq dot (by decide) (List.cons.inj named).1
    have within : last' <+: (String.ofList (last' ++ suffix)).toList := by
      rw [String.toList_ofList]
      exact List.prefix_append last' suffix
    have none : ∀ r ∈ roots, ¬ "index".toList <+: r.toList := by decide
    exact none _ (List.contains_iff_mem.1 root) (starts.trans within)

theorem mem_of_mem_withoutDots {c : Char} (h : c ∈ withoutDots cs) : c ∈ cs := by
  fun_induction withoutDots cs with
  | case1 rest ih => exact List.mem_cons_of_mem _ (List.mem_cons_of_mem _ (ih h))
  | case2 cs other => exact h

theorem notMem_withoutDots {c : Char} (dot : c ≠ '.') (slash : c ≠ '/')
    (h : c ∉ withoutDots cs) : c ∉ cs := by
  fun_induction withoutDots cs with
  | case1 rest ih =>
    rw [List.mem_cons, List.mem_cons, not_or, not_or]
    exact ⟨dot, slash, ih h⟩
  | case2 cs other => exact h

theorem key_of_isPlain (plain : IsPlain (withoutDots target.toList)) :
    key target = String.ofList (ofSegments (keyParts (withoutDots target.toList))) := by
  have slashes : '\\' ∉ target.toList :=
    notMem_withoutDots (by decide) (by decide) plain.slashes
  unfold key keyParts stem
  rw [Path.slashed_of_notMem slashes]

theorem segments_keyParts (cs : List Char) : segments (ofSegments (keyParts cs)) = keyParts cs := by
  obtain ⟨folders, last, -, -, stems, keys, -⟩ := exists_keyParts cs
  have single : ∀ p ∈ folders ++ [last], '/' ∉ p := by
    intro p hp
    rw [← stems] at hp
    exact Text.notMem_of_mem_split hp
  have fewer : ∀ p ∈ withoutFirst folders, p ∈ folders := by
    intro p hp
    cases folders with
    | nil => cases hp
    | cons first rest =>
      rw [withoutFirst] at hp
      split at hp
      · exact List.mem_cons_of_mem _ hp
      · exact hp
  rw [keys]
  refine Text.split_joinWith (by simp) fun p hp => single p ?_
  rcases List.mem_append.1 hp with hp | hp
  · exact List.mem_append_left _ (fewer p hp)
  · exact List.mem_append_right _ hp

theorem mem_of_mem_key {c : Char} (h : c ∈ ofSegments (keyParts cs)) : c = '/' ∨ c ∈ cs := by
  rcases Text.mem_of_mem_joinWith h with h | ⟨p, hp, inside⟩
  · exact .inl (List.mem_singleton.1 h)
  · refine .inr ?_
    obtain ⟨suffix, whole, -⟩ := exists_stem cs
    have part : p ∈ segments (stem cs) := by
      unfold keyParts at hp
      generalize segments (stem cs) = parts at hp ⊢
      unfold withoutRoot at hp
      split at hp
      · split at hp
        · exact List.mem_cons_of_mem _ hp
        · exact hp
      · exact hp
    rw [whole]
    apply List.mem_append_left
    rw [← Path.ofSegments_segments (stem cs)]
    exact Text.mem_joinWith inside part

/-- **A target stands for a source** exactly if both have the same key. -/
theorem isFor_iff (plain : IsPlain (withoutDots target.toList)) (starless : '*' ∉ target.toList)
    (below : IsPlain v) :
    isFor target (String.ofList v) = true ↔ keyParts (withoutDots target.toList) = keyParts v := by
  have given : key (String.ofList v) = String.ofList (ofSegments (keyParts v)) := by
    rw [key_of_isPlain (by rwa [String.toList_ofList, below.withoutDots]), String.toList_ofList,
      below.withoutDots]
  have wanted : (ofSegments (keyParts (withoutDots target.toList))).contains '*' = false := by
    rw [Bool.eq_false_iff]
    intro star
    rcases mem_of_mem_key (List.contains_iff_mem.1 star) with h | h
    · exact absurd h (by decide)
    · exact starless (mem_of_mem_withoutDots h)
  unfold isFor
  rw [key_of_isPlain plain, given]
  dsimp only
  rw [String.toList_ofList, wanted, if_neg Bool.false_ne_true, beq_iff_eq, String.ofList_inj]
  constructor
  · intro same
    rw [← segments_keyParts, same, segments_keyParts]
  · intro same
    rw [same]

end Target

end ModuleAtlas
