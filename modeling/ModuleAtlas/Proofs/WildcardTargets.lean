/-
ModuleAtlas/Proofs/WildcardTargets.lean

Targets with a star.

The key of a target with a star is read as a glob pattern, its star doubled so that it takes
slashes as well.  The rest of the key is read as a pattern, too: a question mark takes any character
but a slash, and a bracket any character of its set, although both can stand in the name of a
folder.  And the doubled star makes a piece of its own with a slash next to it: a slash behind it is
not asked for, nor is one in front of it at the end of the key.

`Places` reads a part of a key without stars, place by place, and `Covers` says which keys the
whole stands for.  The parts before and behind the star become atoms one by one
(`Places.atomsOf_append`), and what the atoms between them leave is that of `GlobLanguage`.

Main result: `isFor_iff_covers`.
-/
import ModuleAtlas.Proofs.GlobLanguage
import ModuleAtlas.Proofs.TargetKeys

namespace ModuleAtlas

namespace Glob

/-! ### Parts without a star -/

/-- The set that a bracket with the given text stands for. -/
def bracketSet? (body : List Char) : Option CharSet :=
  (charSet ((spelledBody body).map (⟨·, false⟩) ++ [⟨']', false⟩])).map Prod.fst

/-- What a part of a pattern without stars asks of the characters at its places, where each bracket
is closed and more than a mark of negation. -/
inductive Places : List Char → List (Char → Bool) → Prop
  | done : Places [] []
  | one {rest : List Char} {ps : List (Char → Bool)} (more : Places rest ps) :
      Places ('?' :: rest) ((· != '/') :: ps)
  | bracket {body rest : List Char} {set : CharSet} {ps : List (Char → Bool)} (full : body ≠ [])
      (closed : ']' ∉ body) (starless : '*' ∉ body) (shut : spelledBody body ≠ ['^'])
      (means : bracketSet? body = some set) (more : Places rest ps) :
      Places ('[' :: (body ++ ']' :: rest)) (set.has :: ps)
  | text {c : Char} {rest : List Char} {ps : List (Char → Bool)} (plain : c ∉ ['*', '?', '['])
      (more : Places rest ps) : Places (c :: rest) ((· == c) :: ps)

/-- The text has a character for each of the places. -/
def Fills (ps : List (Char → Bool)) (u : List Char) : Prop :=
  List.Forall₂ (fun p c => p c = true) ps u

/-- The texts that a star between two parts stands for, together with them: a text for the first
part, any text, and a text for the second part; where the second part starts with a slash, also
without that slash if the star takes nothing; and where nothing follows the star, also without the
slash at the end of the first part. -/
inductive Covers (front back : List Char) (ps qs : List (Char → Bool)) : List Char → Prop
  | between {u v : List Char} (m : List Char) (first : Fills ps u) (second : Fills qs v) :
      Covers front back ps qs (u ++ (m ++ v))
  | withoutFolders {u v : List Char} (slash : back.head? = some '/') (first : Fills ps u)
      (second : Fills qs.tail v) : Covers front back ps qs (u ++ v)
  | folder {u : List Char} (last : back = []) (slash : front.getLast? = some '/')
      (first : Fills ps.dropLast u) : Covers front back ps qs u

variable {front back rest s u : List Char} {ps qs : List (Char → Bool)} {as : List Atom}

theorem Places.starless (h : Places front ps) : '*' ∉ front := by
  induction h with
  | done => exact List.not_mem_nil
  | one _ ih => simpa using ih
  | bracket _ _ starless _ _ _ ih => simpa using ⟨starless, ih⟩
  | text plain _ ih =>
    rw [List.mem_cons, not_or]
    exact ⟨fun same => plain (by simp [← same]), ih⟩

/-- A slash at the end of a part is a place of its own. -/
theorem Places.of_concat_slash (h : Places (front ++ ['/']) ps) :
    ∃ ps', ps = ps' ++ [(· == '/')] ∧ Places front ps' := by
  generalize whole : front ++ ['/'] = w at h
  induction h generalizing front with
  | done => simp at whole
  | one more ih =>
    cases front with
    | nil => cases whole
    | cons c front =>
      obtain ⟨rfl, rfl⟩ := List.cons.inj whole
      obtain ⟨ps', rfl, places⟩ := ih rfl
      exact ⟨_ :: ps', rfl, .one places⟩
  | @bracket body rest set ps full closed starless shut means more ih =>
    cases front with
    | nil => cases whole
    | cons c front =>
      obtain ⟨rfl, eq⟩ := List.cons.inj whole
      -- the bracket is closed before the slash, so the slash stands in what follows
      rcases List.eq_nil_or_concat' rest with rfl | ⟨rest', d, rfl⟩
      · have last := congrArg List.getLast? eq
        simp at last
      · have eq' : front ++ ['/'] = (body ++ ']' :: rest') ++ [d] := by simpa using eq
        obtain ⟨rfl, same⟩ := List.append_inj' eq' rfl
        obtain rfl := (List.cons.inj same).1
        obtain ⟨ps', rfl, places⟩ := ih rfl
        exact ⟨_ :: ps', rfl, .bracket full closed starless shut means places⟩
  | @text c rest ps plain more ih =>
    cases front with
    | nil =>
      obtain ⟨rfl, rfl⟩ := List.cons.inj whole
      cases more
      exact ⟨[], rfl, .done⟩
    | cons d front =>
      obtain ⟨rfl, rfl⟩ := List.cons.inj whole
      obtain ⟨ps', rfl, places⟩ := ih rfl
      exact ⟨_ :: ps', rfl, .text plain places⟩

/-- A slash at the start of a part is a place of its own. -/
theorem Places.of_cons_slash (h : Places ('/' :: back) qs) :
    ∃ qs', qs = (· == '/') :: qs' ∧ Places back qs' := by
  cases h with
  | text _ more => exact ⟨_, rfl, more⟩

/-- A part without marks and brackets is filled by itself only. -/
theorem Places.fills_iff (h : Places front ps) (marks : '?' ∉ front) (brackets : '[' ∉ front) :
    Fills ps u ↔ u = front := by
  unfold Fills
  induction h generalizing u with
  | done => simp
  | one | bracket => simp at marks brackets
  | text plain more ih =>
    rw [List.mem_cons, not_or] at marks brackets
    rw [List.forall₂_cons_left_iff]
    constructor
    · rintro ⟨c, v, same, fills, rfl⟩
      rw [beq_iff_eq.1 same, (ih marks.2 brackets.2).1 fills]
    · rintro rfl
      exact ⟨_, _, beq_self_eq_true _, (ih marks.2 brackets.2).2 rfl, rfl⟩

/-! ### Atoms of the parts -/

/-- The atoms of a pattern. -/
def atomsOf (w : List Char) : Option (List Atom) := (pieces w).bind atoms

theorem atomsOf_cons {c : Char} {more : List Char} {p : Piece} {a : Atom}
    (first : piece c rest = some (p, more))
    (one : ∀ qs, atoms (p :: qs) = (atoms qs).map (a :: ·)) :
    atomsOf (c :: rest) = (atomsOf more).map (a :: ·) := by
  unfold atomsOf
  rw [pieces_cons first]
  cases pieces more with
  | none => rfl
  | some qs => exact one qs

theorem bracketBody_append {body : List Char} (closed : ']' ∉ body) (rest : List Char) :
    bracketBody (body ++ ']' :: rest) = some (body, rest) := by
  induction body with
  | nil => rfl
  | cons c body ih =>
    rw [List.mem_cons, not_or] at closed
    simp [bracketBody, ih closed.2, Ne.symm closed.1]

theorem piece_bracket {body : List Char} (full : body ≠ []) (closed : ']' ∉ body)
    (rest : List Char) : piece '[' (body ++ ']' :: rest) = some (.bracket body, rest) := by
  have read := bracketBody_append closed rest
  obtain ⟨b, body, rfl⟩ := List.exists_cons_of_ne_nil full
  unfold piece
  simp only [read]

theorem atoms_bracket {body : List Char} {set : CharSet} (shut : spelledBody body ≠ ['^'])
    (means : bracketSet? body = some set) (qs : List Piece) :
    atoms (.bracket body :: qs) = (atoms qs).map (.member set :: ·) := by
  obtain ⟨⟨set', left⟩, read, rfl⟩ := Option.map_eq_some_iff.1 means
  show atomsUpTo (qs.length + 1) (.bracket body :: qs) = _
  unfold atomsUpTo
  dsimp only
  rw [if_neg shut, read]
  rfl

/-- The atom asks for one character of a sort. -/
def Atom.Asks (a : Atom) (p : Char → Bool) : Prop := ∀ s, a.rests s = afterOne p s

/-- **Each place becomes an atom**, unless a slash of the part and two stars behind it end the
pattern. -/
theorem Places.atomsOf_append (h : Places front ps)
    (apart : ∀ a b, front = a ++ '/' :: b → b ++ rest ≠ ['*', '*']) :
    ∃ as, List.Forall₂ Atom.Asks as ps ∧ atomsOf (front ++ rest) = (atomsOf rest).map (as ++ ·) := by
  induction h with
  | done => exact ⟨[], .nil, by simp⟩
  | one more ih =>
    obtain ⟨as, asks, eq⟩ := ih fun a b split => apart (_ :: a) b (by rw [split]; rfl)
    refine ⟨.one :: as, .cons (fun s => rfl) asks, ?_⟩
    rw [List.cons_append, atomsOf_cons rfl fun _ => rfl, eq, Option.map_map]
    rfl
  | @bracket body after set ps full closed starless shut means more ih =>
    obtain ⟨as, asks, eq⟩ := ih fun a b split =>
      apart ('[' :: (body ++ ']' :: a)) b (by rw [split]; simp)
    refine ⟨.member set :: as, .cons (fun s => rfl) asks, ?_⟩
    rw [List.cons_append, List.append_assoc, List.cons_append,
      atomsOf_cons (piece_bracket full closed _) (atoms_bracket shut means), eq, Option.map_map]
    rfl
  | @text c after ps plain more ih =>
    obtain ⟨as, asks, eq⟩ := ih fun a b split => apart (c :: a) b (by rw [split]; rfl)
    refine ⟨.exactly c :: as, .cons (fun s => rfl) asks, ?_⟩
    have inner : c :: (after ++ rest) ≠ ['/', '*', '*'] := by
      intro same
      obtain ⟨rfl, stars⟩ := List.cons.inj same
      exact apart [] after rfl stars
    rw [List.cons_append, atomsOf_cons (piece_text plain inner) fun _ => rfl, eq, Option.map_map]
    rfl

/-! ### What the atoms fit -/

theorem fits_append_iff (asks : List.Forall₂ Atom.Asks as ps) {more : List Atom} :
    fits (as ++ more) s = true ↔ ∃ u r, u ++ r = s ∧ Fills ps u ∧ fits more r = true := by
  unfold Fills
  induction asks generalizing s with
  | nil =>
    constructor
    · exact fun fit => ⟨[], s, rfl, .nil, fit⟩
    · rintro ⟨u, r, rfl, fills, fit⟩
      cases fills
      exact fit
  | @cons a p as ps first asks ih =>
    show (a.rests s).any (fits (as ++ more)) = true ↔ _
    rw [List.any_eq_true, first]
    simp only [mem_afterOne]
    constructor
    · rintro ⟨r, ⟨c, has, rfl⟩, fit⟩
      obtain ⟨u, r, rfl, fills, fit⟩ := ih.1 fit
      exact ⟨c :: u, r, rfl, .cons has fills, fit⟩
    · rintro ⟨u, r, rfl, fills, fit⟩
      cases fills with
      | cons has fills => exact ⟨_, ⟨_, has, rfl⟩, ih.2 ⟨_, r, rfl, fills, fit⟩⟩

theorem fits_cons_iff {p : Piece} {a : Atom} (leaves : p.Leaves a) {more : List Atom}
    (line : '\n' ∉ s) :
    fits (a :: more) s = true ↔ ∃ m r, p.Takes m ∧ m ++ r = s ∧ fits more r = true := by
  show (a.rests s).any (fits more) = true ↔ _
  rw [List.any_eq_true]
  constructor
  · rintro ⟨r, left, fit⟩
    obtain ⟨m, takes, eq⟩ := (leaves s r line).1 left
    exact ⟨m, r, takes, eq, fit⟩
  · rintro ⟨m, r, takes, eq, fit⟩
    exact ⟨r, (leaves s r line).2 ⟨m, takes, eq⟩, fit⟩

theorem fits_nil_iff (line : '\n' ∉ s) : fits [] s = true ↔ s = [] := by
  have fit := fits_iff_of_leaves .nil line
  rwa [isCut_nil] at fit

/-- Atoms for two parts with one between them fit a line that can be cut accordingly. -/
theorem fits_between_iff {bs : List Atom} {p : Piece} {a : Atom}
    (asks : List.Forall₂ Atom.Asks as ps) (leaves : p.Leaves a)
    (asks' : List.Forall₂ Atom.Asks bs qs) (line : '\n' ∉ s) :
    fits (as ++ a :: bs) s = true ↔
      ∃ u m v, u ++ (m ++ v) = s ∧ Fills ps u ∧ p.Takes m ∧ Fills qs v := by
  have last : ∀ {v : List Char}, '\n' ∉ v → (fits bs v = true ↔ Fills qs v) := by
    intro v line
    rw [← List.append_nil bs, fits_append_iff asks']
    constructor
    · rintro ⟨w, r, rfl, fills, fit⟩
      rw [(fits_nil_iff fun h => line (List.mem_append_right w h)).1 fit, List.append_nil]
      exact fills
    · exact fun fills => ⟨v, [], List.append_nil v, fills, rfl⟩
  rw [fits_append_iff asks]
  constructor
  · rintro ⟨u, r, rfl, first, fit⟩
    have line' : '\n' ∉ r := fun h => line (List.mem_append_right u h)
    obtain ⟨m, v, takes, rfl, fit'⟩ := (fits_cons_iff leaves line').1 fit
    exact ⟨u, m, v, rfl, first, takes, (last fun h => line' (List.mem_append_right m h)).1 fit'⟩
  · rintro ⟨u, m, v, rfl, first, takes, second⟩
    have line' : '\n' ∉ m ++ v := fun h => line (List.mem_append_right u h)
    refine ⟨u, m ++ v, rfl, first, (fits_cons_iff leaves line').2 ⟨m, v, takes, rfl, ?_⟩⟩
    exact (last fun h => line' (List.mem_append_right m h)).2 second

/-! ### A star between two parts -/

theorem Places.exists_atomsOf (h : Places back qs) :
    ∃ bs, List.Forall₂ Atom.Asks bs qs ∧ atomsOf back = some bs := by
  have apart : ∀ a b, back = a ++ '/' :: b → b ++ [] ≠ ['*', '*'] := by
    rintro a b rfl stars
    rw [List.append_nil] at stars
    exact h.starless (by simp [stars])
  obtain ⟨bs, asks, eq⟩ := h.atomsOf_append apart
  rw [List.append_nil] at eq
  refine ⟨bs, asks, ?_⟩
  rw [eq]
  exact congrArg some (List.append_nil bs)

theorem fills_append_iff {more : List (Char → Bool)} :
    Fills (ps ++ more) s ↔ ∃ u v, u ++ v = s ∧ Fills ps u ∧ Fills more v := by
  unfold Fills
  constructor
  · intro fills
    refine ⟨s.take ps.length, s.drop ps.length, List.take_append_drop _ _, ?_, ?_⟩
    · simpa using List.forall₂_take ps.length fills
    · simpa using List.forall₂_drop ps.length fills
  · rintro ⟨u, v, rfl, first, second⟩
    exact List.rel_append first second

theorem fills_slash : Fills [(· == '/')] u ↔ u = ['/'] := by
  unfold Fills
  simp [List.forall₂_cons_left_iff]

theorem append_ne_stars (b : List Char) (long : 2 < rest.length) : b ++ rest ≠ ['*', '*'] := by
  intro stars
  have short := congrArg List.length stars
  simp only [List.length_append, List.length_cons, List.length_nil] at short
  omega

/-- The star takes any text, unless a slash next to it makes a piece with it. -/
theorem covers_of_tree (first : Places front ps) (second : Places back qs)
    (inner : back.head? ≠ some '/') (ends : back = [] → front.getLast? ≠ some '/')
    (line : '\n' ∉ s) :
    ∃ as, atomsOf (front ++ '*' :: '*' :: back) = some as ∧
      (fits as s = true ↔ Covers front back ps qs s) := by
  -- two stars that end the pattern would be read together with a slash before them
  have apart : ∀ a b, front = a ++ '/' :: b → b ++ '*' :: '*' :: back ≠ ['*', '*'] := by
    rintro a b rfl stars
    have short := congrArg List.length stars
    simp only [List.length_append, List.length_cons, List.length_nil] at short
    obtain rfl : b = [] := List.length_eq_zero_iff.1 (by omega)
    obtain rfl : back = [] := List.length_eq_zero_iff.1 (by omega)
    exact ends rfl (by simp)
  obtain ⟨as, asks, eq⟩ := first.atomsOf_append apart
  obtain ⟨bs, asks', eq'⟩ := second.exists_atomsOf
  obtain ⟨a, leaves, one⟩ := exists_leaves (p := .tree) nofun
  have star : piece '*' ('*' :: back) = some (.tree, back) := by
    refine piece_tree fun more same => inner ?_
    rw [same]
    rfl
  refine ⟨as ++ a :: bs, by rw [eq, atomsOf_cons star one, eq']; rfl, ?_⟩
  rw [fits_between_iff asks leaves asks' line]
  constructor
  · rintro ⟨u, m, v, rfl, fills, -, fills'⟩
    exact .between m fills fills'
  · intro covers
    cases covers with
    | between m fills fills' => exact ⟨_, m, _, rfl, fills, trivial, fills'⟩
    | withoutFolders slash => exact absurd slash inner
    | folder last slash => exact absurd slash (ends last)

/-- A star with a slash behind it takes folders. -/
theorem covers_of_folders (first : Places front ps) (second : Places ('/' :: back) qs)
    (line : '\n' ∉ s) :
    ∃ as, atomsOf (front ++ '*' :: '*' :: '/' :: back) = some as ∧
      (fits as s = true ↔ Covers front ('/' :: back) ps qs s) := by
  obtain ⟨qs, rfl, second'⟩ := second.of_cons_slash
  have long : 2 < ('*' :: '*' :: '/' :: back).length := by simp
  obtain ⟨as, asks, eq⟩ := first.atomsOf_append fun _ b _ => append_ne_stars b long
  obtain ⟨bs, asks', eq'⟩ := second'.exists_atomsOf
  obtain ⟨a, leaves, one⟩ := exists_leaves (p := .folders) nofun
  refine ⟨as ++ a :: bs, by rw [eq, atomsOf_cons rfl one, eq']; rfl, ?_⟩
  rw [fits_between_iff asks leaves asks' line]
  constructor
  · rintro ⟨u, _, v, rfl, fills, rfl | ⟨m, rfl⟩, fills'⟩
    · exact .withoutFolders rfl fills fills'
    · rw [List.append_assoc]
      exact .between m fills (.cons rfl fills')
  · intro covers
    cases covers with
    | @between u v m fills fills' =>
      obtain ⟨c, v, slash, later, rfl⟩ := List.forall₂_cons_left_iff.1 fills'
      rw [beq_iff_eq.1 slash]
      exact ⟨u, m ++ ['/'], v, by simp, fills, .inr ⟨m, rfl⟩, later⟩
    | withoutFolders slash fills fills' => exact ⟨_, [], _, rfl, fills, .inl rfl, fills'⟩
    | folder last => cases last

/-- A star at the end takes the slash before it as well. -/
theorem covers_of_below (first : Places (front ++ ['/']) ps) (line : '\n' ∉ s) :
    ∃ as, atomsOf (front ++ ['/', '*', '*']) = some as ∧
      (fits as s = true ↔ Covers (front ++ ['/']) [] ps [] s) := by
  obtain ⟨ps, rfl, first'⟩ := first.of_concat_slash
  have long : 2 < ['/', '*', '*'].length := by simp
  obtain ⟨as, asks, eq⟩ := first'.atomsOf_append fun _ b _ => append_ne_stars b long
  obtain ⟨a, leaves, one⟩ := exists_leaves (p := .below) nofun
  have last : atomsOf ['/', '*', '*'] = some [a] := by
    rw [atomsOf_cons rfl one]
    rfl
  refine ⟨as ++ [a], by rw [eq, last]; rfl, ?_⟩
  rw [fits_between_iff asks leaves .nil line]
  constructor
  · rintro ⟨u, _, _, rfl, fills, rfl | ⟨m, rfl⟩, ⟨⟩⟩
    · refine .folder rfl (by simp) ?_
      simpa using fills
    · have slash : Fills (ps ++ [(· == '/')]) (u ++ ['/']) :=
        fills_append_iff.2 ⟨u, ['/'], rfl, fills, fills_slash.2 rfl⟩
      have covered : Covers (front ++ ['/']) [] (ps ++ [(· == '/')]) [] (u ++ ['/'] ++ (m ++ [])) :=
        .between m slash .nil
      simpa using covered
  · intro covers
    cases covers with
    | between m fills fills' =>
      obtain ⟨u, _, rfl, start, slash⟩ := fills_append_iff.1 fills
      obtain rfl := fills_slash.1 slash
      cases fills'
      exact ⟨u, '/' :: m, [], by simp, start, .inr ⟨m, rfl⟩, .nil⟩
    | withoutFolders slash => cases slash
    | folder _ _ fills =>
      rw [List.dropLast_concat] at fills
      exact ⟨_, [], [], by simp, fills, .inl rfl, .nil⟩

/-- **A doubled star between two parts** fits what they cover. -/
theorem covers_of_places (first : Places front ps) (second : Places back qs) (line : '\n' ∉ s) :
    ∃ as, atomsOf (front ++ '*' :: '*' :: back) = some as ∧
      (fits as s = true ↔ Covers front back ps qs s) := by
  by_cases inner : back.head? = some '/'
  · obtain ⟨back, rfl⟩ := List.head?_eq_some_iff.1 inner
    exact covers_of_folders first second line
  · by_cases last : back = [] ∧ front.getLast? = some '/'
    · obtain ⟨rfl, slash⟩ := last
      obtain ⟨front, rfl⟩ := List.getLast?_eq_some_iff.1 slash
      cases second
      rw [List.append_assoc]
      exact covers_of_below first line
    · exact covers_of_tree first second inner (fun none slash => last ⟨none, slash⟩) line

/-- A part without brackets has its places. -/
theorem exists_places (starless : '*' ∉ front) (brackets : '[' ∉ front) : ∃ ps, Places front ps := by
  induction front with
  | nil => exact ⟨[], .done⟩
  | cons c rest ih =>
    rw [List.mem_cons, not_or] at starless brackets
    obtain ⟨ps, more⟩ := ih starless.2 brackets.2
    by_cases mark : c = '?'
    · subst mark
      exact ⟨_, .one more⟩
    · have plain : c ∉ ['*', '?', '['] := by
        simpa using ⟨Ne.symm starless.1, mark, Ne.symm brackets.1⟩
      exact ⟨_, .text plain more⟩

end Glob

namespace Target

open ModuleAtlas.Glob (Places Covers Fills atomsOf fits)

variable {front back : List Char} {target path : String}

/-! ### Keys as patterns -/

/-- A key has slashes only. -/
theorem notMem_key (path : String) : '\\' ∉ (key path).toList := by
  intro h
  unfold key at h
  rw [String.toList_ofList] at h
  rcases mem_of_mem_key h with h | h
  · exact absurd h (by decide)
  · have within := mem_of_mem_withoutDots h
    unfold Path.slashed at within
    rw [String.toList_ofList, List.mem_map] at within
    obtain ⟨c, -, same⟩ := within
    split at same
    · exact absurd same (by decide)
    · next other => exact other (by simp [same])

theorem doubled_of_notMem {cs : List Char} (starless : '*' ∉ cs) : doubled cs = cs := by
  unfold doubled
  induction cs with
  | nil => rfl
  | cons c cs ih =>
    rw [List.mem_cons, not_or] at starless
    rw [List.flatMap_cons, ih starless.2, if_neg (by simpa using Ne.symm starless.1)]
    rfl

theorem doubled_star (first : '*' ∉ front) (second : '*' ∉ back) :
    doubled (front ++ '*' :: back) = front ++ '*' :: '*' :: back := by
  have parts : doubled (front ++ '*' :: back) = doubled front ++ '*' :: '*' :: doubled back := by
    unfold doubled
    rw [List.flatMap_append, List.flatMap_cons]
    rfl
  rw [parts, doubled_of_notMem first, doubled_of_notMem second]

/-- A target with a star stands for the sources whose keys its atoms fit. -/
theorem isFor_iff_fits (wanted : (key target).toList = front ++ '*' :: back)
    (first : '*' ∉ front) (second : '*' ∉ back) :
    isFor target path = true ↔ ∃ as, atomsOf (front ++ '*' :: '*' :: back) = some as ∧
      fits as (key path).toList = true := by
  have slashes : '\\' ∉ front ++ '*' :: '*' :: back := by
    have none := notMem_key target
    rw [wanted] at none
    simpa using none
  have given : Path.slashed (key path) = key path := Path.slashed_of_notMem (notMem_key path)
  have star : (front ++ '*' :: back).contains '*' = true := by simp
  have full : (String.ofList (front ++ '*' :: '*' :: back)).isEmpty = false := by simp
  unfold isFor Glob.holds Glob.compile atomsOf
  dsimp only
  rw [wanted, if_pos star, doubled_star first second, full, if_neg Bool.false_ne_true,
    Path.slashed_ofList slashes, String.toList_ofList, given]
  cases (Glob.pieces (front ++ '*' :: '*' :: back)).bind Glob.atoms with
  | none => simp
  | some as => simp

/-- **What a target with a star stands for.**  Its parts before and behind the star are read as
patterns, and a slash next to the star can be left out.  Where neither part has a question mark or
a bracket, and no slash stands behind the star or before a star at the end, the target stands for
exactly those sources whose keys have its parts at their ends. -/
theorem isFor_iff_covers (wanted : (key target).toList = front ++ '*' :: back)
    (first : '*' ∉ front) (second : '*' ∉ back) (line : '\n' ∉ (key path).toList) :
    (∀ ps qs, Places front ps → Places back qs →
      (isFor target path = true ↔ Covers front back ps qs (key path).toList)) ∧
    ('?' ∉ front ++ back → '[' ∉ front ++ back → back.head? ≠ some '/' →
      (back = [] → front.getLast? ≠ some '/') →
      (isFor target path = true ↔ ∃ m, (key path).toList = front ++ (m ++ back))) := by
  have covers : ∀ ps qs, Places front ps → Places back qs →
      (isFor target path = true ↔ Covers front back ps qs (key path).toList) := by
    intro ps qs places places'
    obtain ⟨as, compiled, fit⟩ := Glob.covers_of_places places places' line
    rw [isFor_iff_fits wanted first second, ← fit, compiled]
    simp
  refine ⟨covers, fun marks brackets inner last => ?_⟩
  rw [List.mem_append, not_or] at marks brackets
  obtain ⟨ps, places⟩ := Glob.exists_places first brackets.1
  obtain ⟨qs, places'⟩ := Glob.exists_places second brackets.2
  rw [covers ps qs places places']
  constructor
  · intro hit
    generalize (key path).toList = s at hit ⊢
    cases hit with
    | between m fills fills' =>
      rw [(places.fills_iff marks.1 brackets.1).1 fills, (places'.fills_iff marks.2 brackets.2).1 fills']
      exact ⟨m, rfl⟩
    | withoutFolders slash => exact absurd slash inner
    | folder none slash => exact absurd slash (last none)
  · rintro ⟨m, eq⟩
    rw [eq]
    exact .between m ((places.fills_iff marks.1 brackets.1).2 rfl)
      ((places'.fills_iff marks.2 brackets.2).2 rfl)

/-- **A folder with brackets in its name** is missed by its target, which stands for a file with one
of the letters between them instead. -/
theorem isFor_iff_covers_bracket :
    (key "./dist/[id]/*.js").toList = "[id]/".toList ++ '*' :: [] ∧
      (key "src/[id]/a.ts").toList = "[id]/".toList ++ ("a".toList ++ []) ∧
      isFor "./dist/[id]/*.js" "src/[id]/a.ts" = false ∧ (key "src/i.ts").toList = "i".toList ∧
      isFor "./dist/[id]/*.js" "src/i.ts" = true := by
  have wanted : (key "./dist/[id]/*.js").toList = "[id]/".toList ++ '*' :: [] := by decide
  have inside : (key "src/[id]/a.ts").toList = "[id]/".toList ++ ("a".toList ++ []) := by decide
  have other : (key "src/i.ts").toList = "i".toList := by decide
  let set : Glob.CharSet := ⟨false, [⟨'i', 'i'⟩, ⟨'d', 'd'⟩]⟩
  have means : Glob.bracketSet? ['i', 'd'] = some set := by decide
  have places : Places "[id]/".toList [set.has, (· == '/')] :=
    .bracket (by decide) (by decide) (by decide) (by decide) means (.text (by decide) .done)
  have starless : '*' ∉ "[id]/".toList := by decide
  have line : '\n' ∉ (key "src/[id]/a.ts").toList := by decide
  have line' : '\n' ∉ (key "src/i.ts").toList := by decide
  have missed := (isFor_iff_covers wanted starless List.not_mem_nil line).1 _ _ places .done
  have taken := (isFor_iff_covers wanted starless List.not_mem_nil line').1 _ _ places .done
  refine ⟨wanted, inside, ?_, other, ?_⟩
  · rw [Bool.eq_false_iff, Ne, missed, inside]
    intro covers
    generalize text : "[id]/".toList ++ ("a".toList ++ []) = s at covers
    cases covers with
    | between m fills =>
      -- the first letter would have to be one of those between the brackets
      cases fills with
      | cons has =>
        obtain ⟨rfl, -⟩ := List.cons.inj text
        exact absurd has (by decide)
    | withoutFolders slash => cases slash
    | folder _ _ fills =>
      have short := fills.length_eq
      rw [← text] at short
      exact absurd short (by decide)
  · rw [taken, other]
    exact .folder rfl rfl (.cons rfl .nil)

end Target

end ModuleAtlas
