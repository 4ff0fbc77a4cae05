/-
ModuleAtlas/Proofs/GlobLanguage.lean

The paths of a pattern without brackets.

A pattern is read from left to right into pieces, the pieces become atoms, and the atoms are
tried one after the other on what the ones before have left.  None of that is in the description
of the language: `Scan` says which pieces stand in a pattern, `Piece.Takes` what each of them
takes, and a path belongs to the pattern if it can be cut accordingly.

The two meet piece by piece.  `Piece.Leaves` says of a piece and an atom that the atom leaves
exactly what is behind a text that the piece takes, and `fits_iff_of_leaves` carries this to
lists of them, however many ways of cutting there are.  Line breaks have to stay out of the path,
for no star takes one and one of them may be left at the end.

Main result: `holds_iff_cut`.
-/
import Mathlib.Data.List.Forall2
import ModuleAtlas.Glob.Matching

namespace ModuleAtlas.Glob

/-! ### The language -/

/-- The pieces of a pattern, where no bracket starts. -/
inductive Scan : List Char → List Piece → Prop
  | done : Scan [] []
  | folders {rest : List Char} {ps : List Piece} (more : Scan rest ps) :
      Scan ('*' :: '*' :: '/' :: rest) (.folders :: ps)
  | tree {rest : List Char} {ps : List Piece} (apart : ∀ more, rest ≠ '/' :: more)
      (more : Scan rest ps) : Scan ('*' :: '*' :: rest) (.tree :: ps)
  | run {rest : List Char} {ps : List Piece} (single : ∀ more, rest ≠ '*' :: more)
      (more : Scan rest ps) : Scan ('*' :: rest) (.run :: ps)
  | one {rest : List Char} {ps : List Piece} (more : Scan rest ps) :
      Scan ('?' :: rest) (.one :: ps)
  | last : Scan ['/', '*', '*'] [.below]
  | text {c : Char} {rest : List Char} {ps : List Piece} (plain : c ∉ ['*', '?', '['])
      (inner : c :: rest ≠ ['/', '*', '*']) (more : Scan rest ps) :
      Scan (c :: rest) (.text c :: ps)

/-- The piece takes the text. -/
def Piece.Takes : Piece → List Char → Prop
  | .text c, u => u = [c]
  | .one, u => ∃ c, c ≠ '/' ∧ u = [c]
  | .run, u => '/' ∉ u
  | .tree, _ => True
  | .folders, u => u = [] ∨ ∃ v, u = v ++ ['/']
  | .below, u => u = [] ∨ ∃ v, u = '/' :: v
  | .bracket _, _ => False

/-- The text can be cut into consecutive parts, one for each piece that takes it. -/
def IsCut (ps : List Piece) (s : List Char) : Prop :=
  ∃ parts : List (List Char), List.Forall₂ Piece.Takes ps parts ∧ parts.flatten = s

theorem isCut_nil {s : List Char} : IsCut [] s ↔ s = [] := by
  constructor
  · rintro ⟨parts, takes, rfl⟩
    cases takes
    rfl
  · rintro rfl
    exact ⟨[], .nil, rfl⟩

theorem isCut_cons {p : Piece} {ps : List Piece} {s : List Char} :
    IsCut (p :: ps) s ↔ ∃ u r, p.Takes u ∧ u ++ r = s ∧ IsCut ps r := by
  constructor
  · rintro ⟨parts, takes, rfl⟩
    cases takes with
    | cons first more => exact ⟨_, _, first, rfl, _, more, rfl⟩
  · rintro ⟨u, r, first, rfl, parts, more, rfl⟩
    exact ⟨u :: parts, .cons first more, rfl⟩

/-! ### From patterns to pieces -/

theorem length_of_bracketBody {s body more : List Char} (h : bracketBody s = some (body, more)) :
    more.length < s.length := by
  fun_induction bracketBody s generalizing body with
  | case1 => cases h
  | case2 rest =>
    obtain ⟨rfl, rfl⟩ := Prod.mk.inj (Option.some.inj h)
    simp
  | case3 c rest _ ih =>
    obtain ⟨⟨body', more'⟩, found, eq⟩ := Option.map_eq_some_iff.1 h
    obtain ⟨-, rfl⟩ := Prod.mk.inj eq
    exact Nat.lt_succ_of_lt (ih found)

/-- A piece takes its first character and some of those behind it. -/
theorem length_of_piece {c : Char} {rest more : List Char} {p : Piece}
    (h : piece c rest = some (p, more)) : more.length ≤ rest.length := by
  unfold piece at h
  split at h
  case h_5 =>
    split at h
    · next found =>
      obtain ⟨-, rfl⟩ := Prod.mk.inj (Option.some.inj h)
      exact Nat.le_of_lt (length_of_bracketBody found)
    · cases h
  all_goals
    obtain ⟨-, rfl⟩ := Prod.mk.inj (Option.some.inj h)
    simp
  all_goals omega

/-- To read further than a pattern goes changes nothing. -/
theorem piecesUpTo_of_le {fuel : Nat} {s : List Char} (enough : s.length ≤ fuel) :
    piecesUpTo fuel s = pieces s := by
  suffices same : ∀ (n m : Nat) (s : List Char), s.length ≤ n → s.length ≤ m →
      piecesUpTo n s = piecesUpTo m s from same fuel s.length s enough (Nat.le_refl _)
  intro n
  induction n with
  | zero =>
    intro m s short _
    obtain rfl := List.length_eq_zero_iff.1 (Nat.le_zero.1 short)
    cases m <;> rfl
  | succ n ih =>
    intro m s short short'
    cases s with
    | nil => cases m <;> rfl
    | cons c rest =>
      cases m with
      | zero => cases short'
      | succ m =>
        rw [piecesUpTo, piecesUpTo]
        rcases first : piece c rest with - | ⟨p, more⟩
        · rfl
        · have shorter := length_of_piece first
          rw [List.length_cons] at short short'
          show (piecesUpTo n more).map (p :: ·) = (piecesUpTo m more).map (p :: ·)
          rw [ih m more (by omega) (by omega)]

/-- The pieces of a pattern are its first one and those of what follows. -/
theorem pieces_cons {c : Char} {rest more : List Char} {p : Piece}
    (first : piece c rest = some (p, more)) :
    pieces (c :: rest) = (pieces more).map (p :: ·) := by
  show piecesUpTo (rest.length + 1) (c :: rest) = _
  rw [piecesUpTo, first]
  show (piecesUpTo rest.length more).map (p :: ·) = _
  rw [piecesUpTo_of_le (length_of_piece first)]

theorem piece_tree {rest : List Char} (apart : ∀ more, rest ≠ '/' :: more) :
    piece '*' ('*' :: rest) = some (.tree, rest) := by
  simp [piece]

theorem piece_run {rest : List Char} (single : ∀ more, rest ≠ '*' :: more) :
    piece '*' rest = some (.run, rest) := by
  simp [piece, single]

theorem piece_text {c : Char} {rest : List Char} (plain : c ∉ ['*', '?', '['])
    (inner : c :: rest ≠ ['/', '*', '*']) : piece c rest = some (.text c, rest) := by
  simp only [List.mem_cons, List.not_mem_nil, or_false, not_or] at plain
  obtain ⟨star, mark, bracket⟩ := plain
  unfold piece
  split
  case h_6 => exact absurd rfl inner
  case h_7 => rfl
  all_goals contradiction

/-- A pattern is read into the pieces that stand in it. -/
theorem pieces_of_scan {s : List Char} {ps : List Piece} (scan : Scan s ps) :
    pieces s = some ps := by
  induction scan with
  | done => rfl
  | folders more ih =>
    rw [pieces_cons rfl, ih]
    rfl
  | tree apart more ih =>
    rw [pieces_cons (piece_tree apart), ih]
    rfl
  | run single more ih =>
    rw [pieces_cons (piece_run single), ih]
    rfl
  | one more ih =>
    rw [pieces_cons rfl, ih]
    rfl
  | last => rfl
  | text plain inner more ih =>
    rw [pieces_cons (piece_text plain inner), ih]
    rfl

/-- The piece that is read first stands first, if it is no bracket. -/
theorem scan_of_piece {c : Char} {rest more : List Char} {p : Piece} {ps : List Piece}
    (bare : c ≠ '[') (first : piece c rest = some (p, more)) (scan : Scan more ps) :
    Scan (c :: rest) (p :: ps) := by
  unfold piece at first
  split at first
  · obtain ⟨rfl, rfl⟩ := Prod.mk.inj (Option.some.inj first)
    exact .folders scan
  · next apart =>
    obtain ⟨rfl, rfl⟩ := Prod.mk.inj (Option.some.inj first)
    exact .tree apart scan
  · next _ single =>
    obtain ⟨rfl, rfl⟩ := Prod.mk.inj (Option.some.inj first)
    exact .run single scan
  · obtain ⟨rfl, rfl⟩ := Prod.mk.inj (Option.some.inj first)
    exact .one scan
  · exact absurd rfl bare
  · obtain ⟨rfl, rfl⟩ := Prod.mk.inj (Option.some.inj first)
    cases scan
    exact .last
  · next star mark _ _ _ inner =>
    obtain ⟨rfl, rfl⟩ := Prod.mk.inj (Option.some.inj first)
    refine .text (by simpa using ⟨star, mark, bare⟩) ?_ scan
    intro eq
    obtain ⟨slash, stars⟩ := List.cons.inj eq
    exact inner slash stars

theorem exists_piece {c : Char} (bare : c ≠ '[') (rest : List Char) :
    ∃ p more, piece c rest = some (p, more) ∧ more <:+ rest := by
  unfold piece
  split
  · exact ⟨_, _, rfl, ['*', '/'], rfl⟩
  · exact ⟨_, _, rfl, ['*'], rfl⟩
  · exact ⟨_, _, rfl, List.suffix_rfl⟩
  · exact ⟨_, _, rfl, List.suffix_rfl⟩
  · exact absurd rfl bare
  · exact ⟨_, _, rfl, List.nil_suffix⟩
  · exact ⟨_, _, rfl, List.suffix_rfl⟩

/-- Every pattern without brackets has its pieces. -/
theorem exists_scan {s : List Char} (bare : '[' ∉ s) : ∃ ps, Scan s ps := by
  induction len : s.length using Nat.strongRecOn generalizing s with
  | _ n ih =>
    cases s with
    | nil => exact ⟨[], .done⟩
    | cons c rest =>
      rw [List.mem_cons, not_or] at bare
      obtain ⟨p, more, first, suffix⟩ := exists_piece (Ne.symm bare.1) rest
      have shorter : more.length < n := by
        have := suffix.length_le
        rw [← len, List.length_cons]
        omega
      obtain ⟨ps, scan⟩ := ih more.length shorter (fun h => bare.2 (suffix.mem h)) rfl
      exact ⟨p :: ps, scan_of_piece (Ne.symm bare.1) first scan⟩

/-! ### From pieces to atoms -/

section Rests

variable {s r : List Char}

theorem mem_afterOne {p : Char → Bool} :
    r ∈ afterOne p s ↔ ∃ c, p c = true ∧ s = c :: r := by
  cases s with
  | nil => simp [afterOne]
  | cons c rest =>
    rw [afterOne]
    by_cases has : p c = true
    · rw [if_pos has, List.mem_singleton]
      constructor
      · rintro rfl
        exact ⟨c, has, rfl⟩
      · rintro ⟨d, -, eq⟩
        exact (List.cons.inj eq).2.symm
    · rw [if_neg has]
      refine iff_of_false List.not_mem_nil ?_
      rintro ⟨d, has', eq⟩
      exact has ((List.cons.inj eq).1 ▸ has')

theorem mem_afterWhile {p : Char → Bool} :
    r ∈ afterWhile p s ↔ ∃ u, (∀ c ∈ u, p c = true) ∧ s = u ++ r := by
  induction s with
  | nil => simp [afterWhile]
  | cons c rest ih =>
    rw [afterWhile, List.mem_cons]
    constructor
    · rintro (rfl | behind)
      · exact ⟨[], by simp, rfl⟩
      · split at behind
        · next has =>
          obtain ⟨u, all, rfl⟩ := ih.1 behind
          exact ⟨c :: u, by simpa [has] using all, rfl⟩
        · cases behind
    · rintro ⟨u, all, eq⟩
      cases u with
      | nil => exact .inl eq.symm
      | cons d u =>
        obtain ⟨rfl, rfl⟩ := List.cons.inj eq
        rw [if_pos (all c List.mem_cons_self)]
        exact .inr (ih.2 ⟨u, fun d hd => all d (List.mem_cons_of_mem c hd), rfl⟩)

theorem mem_afterSlash (line : '\n' ∉ s) :
    r ∈ afterSlash s ↔ ∃ v, s = v ++ '/' :: r := by
  induction s with
  | nil => simp [afterSlash]
  | cons c rest ih =>
    rw [List.mem_cons, not_or] at line
    have later := ih line.2
    rw [afterSlash, if_neg (by simpa using Ne.symm line.1)]
    by_cases slash : c = '/'
    · rw [if_pos (by simp [slash]), List.mem_cons, later]
      constructor
      · rintro (rfl | ⟨v, rfl⟩)
        · exact ⟨[], by rw [slash]; rfl⟩
        · exact ⟨c :: v, rfl⟩
      · rintro ⟨v, eq⟩
        cases v with
        | nil => exact .inl (List.cons.inj eq).2.symm
        | cons d v => exact .inr ⟨v, (List.cons.inj eq).2⟩
    · rw [if_neg (by simpa using slash), later]
      constructor
      · rintro ⟨v, rfl⟩
        exact ⟨c :: v, rfl⟩
      · rintro ⟨v, eq⟩
        cases v with
        | nil => exact absurd (List.cons.inj eq).1 slash
        | cons d v => exact ⟨v, (List.cons.inj eq).2⟩

end Rests

/-- The atom leaves of a line what is behind the texts that the piece takes. -/
def Piece.Leaves (p : Piece) (a : Atom) : Prop :=
  ∀ s r : List Char, '\n' ∉ s → (r ∈ a.rests s ↔ ∃ u, p.Takes u ∧ u ++ r = s)

/-- Each piece that is no bracket becomes an atom that leaves what the piece does not take. -/
theorem exists_leaves {p : Piece} (bare : ∀ body, p ≠ .bracket body) :
    ∃ a, p.Leaves a ∧ ∀ ps, atoms (p :: ps) = (atoms ps).map (a :: ·) := by
  cases p with
  | text c =>
    refine ⟨.exactly c, fun s r _ => ?_, fun _ => rfl⟩
    show r ∈ afterOne (· == c) s ↔ ∃ u, u = [c] ∧ u ++ r = s
    rw [mem_afterOne]
    constructor
    · rintro ⟨d, same, rfl⟩
      exact ⟨[d], by rw [beq_iff_eq.1 same], rfl⟩
    · rintro ⟨_, rfl, rfl⟩
      exact ⟨c, beq_self_eq_true c, rfl⟩
  | one =>
    refine ⟨.one, fun s r _ => ?_, fun _ => rfl⟩
    show r ∈ afterOne (· != '/') s ↔ ∃ u, (∃ c, c ≠ '/' ∧ u = [c]) ∧ u ++ r = s
    rw [mem_afterOne]
    constructor
    · rintro ⟨c, other, rfl⟩
      exact ⟨[c], ⟨c, by simpa using other, rfl⟩, rfl⟩
    · rintro ⟨_, ⟨c, other, rfl⟩, rfl⟩
      exact ⟨c, by simpa using other, rfl⟩
  | run =>
    refine ⟨.run, fun s r _ => ?_, fun _ => rfl⟩
    show r ∈ afterWhile (· != '/') s ↔ ∃ u, '/' ∉ u ∧ u ++ r = s
    rw [mem_afterWhile]
    refine exists_congr fun u => and_congr ?_ eq_comm
    simp only [bne_iff_ne]
    exact ⟨fun all slash => all _ slash rfl, fun none c hc slash => none (slash ▸ hc)⟩
  | tree =>
    refine ⟨.tree, fun s r line => ?_, fun _ => rfl⟩
    show r ∈ afterWhile (· != '\n') s ↔ ∃ u, True ∧ u ++ r = s
    rw [mem_afterWhile]
    constructor
    · rintro ⟨u, -, rfl⟩
      exact ⟨u, trivial, rfl⟩
    · rintro ⟨u, -, rfl⟩
      refine ⟨u, fun c hc => ?_, rfl⟩
      rw [bne_iff_ne]
      rintro rfl
      exact line (List.mem_append_left r hc)
  | folders =>
    refine ⟨.folders, fun s r line => ?_, fun _ => rfl⟩
    show r ∈ s :: afterSlash s ↔ ∃ u, (u = [] ∨ ∃ v, u = v ++ ['/']) ∧ u ++ r = s
    rw [List.mem_cons, mem_afterSlash line]
    constructor
    · rintro (rfl | ⟨v, rfl⟩)
      · exact ⟨[], .inl rfl, rfl⟩
      · exact ⟨v ++ ['/'], .inr ⟨v, rfl⟩, by simp⟩
    · rintro ⟨_, rfl | ⟨v, rfl⟩, rfl⟩
      · exact .inl rfl
      · exact .inr ⟨v, by simp⟩
  | below =>
    refine ⟨.below, fun s r line => ?_, fun _ => rfl⟩
    show r ∈ s :: (afterOne (· == '/') s).flatMap (afterWhile (· != '\n')) ↔
      ∃ u, (u = [] ∨ ∃ v, u = '/' :: v) ∧ u ++ r = s
    rw [List.mem_cons, List.mem_flatMap]
    constructor
    · rintro (rfl | ⟨m, first, later⟩)
      · exact ⟨[], .inl rfl, rfl⟩
      · obtain ⟨c, slash, rfl⟩ := mem_afterOne.1 first
        obtain ⟨v, -, rfl⟩ := mem_afterWhile.1 later
        exact ⟨c :: v, .inr ⟨v, by rw [beq_iff_eq.1 slash]⟩, rfl⟩
    · rintro ⟨_, rfl | ⟨v, rfl⟩, rfl⟩
      · exact .inl rfl
      · refine .inr ⟨v ++ r, mem_afterOne.2 ⟨'/', rfl, rfl⟩, mem_afterWhile.2 ⟨v, ?_, rfl⟩⟩
        intro c hc
        rw [bne_iff_ne]
        rintro rfl
        exact line (List.mem_cons_of_mem '/' (List.mem_append_left r hc))
  | bracket body => exact absurd rfl (bare body)

/-- The pieces that stand in a pattern become atoms, one for each. -/
theorem exists_atoms {s : List Char} {ps : List Piece} (scan : Scan s ps) :
    ∃ as, atoms ps = some as ∧ List.Forall₂ Piece.Leaves ps as := by
  have step : ∀ {p : Piece} {qs : List Piece}, (∀ body, p ≠ .bracket body) →
      (∃ as, atoms qs = some as ∧ List.Forall₂ Piece.Leaves qs as) →
      ∃ as, atoms (p :: qs) = some as ∧ List.Forall₂ Piece.Leaves (p :: qs) as := by
    rintro p qs bare ⟨as, more, leaves⟩
    obtain ⟨a, first, eq⟩ := exists_leaves bare
    exact ⟨a :: as, by rw [eq, more]; rfl, .cons first leaves⟩
  induction scan with
  | done => exact ⟨[], rfl, .nil⟩
  | folders _ ih => exact step nofun ih
  | tree _ _ ih => exact step nofun ih
  | run _ _ ih => exact step nofun ih
  | one _ ih => exact step nofun ih
  | last => exact step nofun ⟨[], rfl, .nil⟩
  | text _ _ _ ih => exact step nofun ih

/-! ### From atoms to paths -/

/-- Atoms fit a line exactly if it can be cut for their pieces. -/
theorem fits_iff_of_leaves {ps : List Piece} {as : List Atom}
    (leaves : List.Forall₂ Piece.Leaves ps as) {s : List Char} (line : '\n' ∉ s) :
    fits as s = true ↔ IsCut ps s := by
  induction leaves generalizing s with
  | nil =>
    rw [isCut_nil]
    unfold fits
    constructor
    · intro fit
      rcases Bool.or_eq_true_iff.1 fit with none | one
      · exact List.isEmpty_iff.1 none
      · exact absurd (by rw [beq_iff_eq.1 one]; exact List.mem_singleton.2 rfl) line
    · rintro rfl
      rfl
  | @cons p a ps as first _ ih =>
    rw [isCut_cons]
    show (a.rests s).any (fits as) = true ↔ _
    rw [List.any_eq_true]
    constructor
    · rintro ⟨r, left, fit⟩
      obtain ⟨u, takes, rfl⟩ := (first s r line).1 left
      exact ⟨u, r, takes, rfl, (ih fun h => line (List.mem_append_right u h)).1 fit⟩
    · rintro ⟨u, r, takes, rfl, cut⟩
      refine ⟨r, (first _ r line).2 ⟨u, takes, rfl⟩, ?_⟩
      exact (ih fun h => line (List.mem_append_right u h)).2 cut

/-- A character that is neither of the two slashes stays where it is. -/
theorem mem_slashed {c : Char} {s : String} (slash : c ≠ '/') (back : c ≠ '\\') :
    c ∈ (Path.slashed s).toList ↔ c ∈ s.toList := by
  unfold Path.slashed
  rw [String.toList_ofList, List.mem_map]
  constructor
  · rintro ⟨d, hd, eq⟩
    split at eq
    · exact absurd eq.symm slash
    · exact eq ▸ hd
  · intro hc
    exact ⟨c, hc, by simp [back]⟩

/-- **The language of a pattern.**  A pattern without brackets matches a path of one line exactly
if it is not empty and the path can be cut into consecutive parts, one for each of the pieces
that stand in the pattern, where backslashes count as slashes in both of them. -/
theorem holds_iff_cut {pattern path : String} (bare : '[' ∉ pattern.toList)
    (line : '\n' ∉ path.toList) :
    holds pattern path = true ↔
      pattern ≠ "" ∧
        ∃ ps, Scan (Path.slashed pattern).toList ps ∧ IsCut ps (Path.slashed path).toList := by
  have bare' : '[' ∉ (Path.slashed pattern).toList := by
    rwa [mem_slashed (by decide) (by decide)]
  have line' : '\n' ∉ (Path.slashed path).toList := by
    rwa [mem_slashed (by decide) (by decide)]
  obtain ⟨ps, scan⟩ := exists_scan bare'
  obtain ⟨as, compiled, leaves⟩ := exists_atoms scan
  have read := pieces_of_scan scan
  -- the pieces that stand in a pattern are those that are read
  have only : (∃ qs, Scan (Path.slashed pattern).toList qs ∧
      IsCut qs (Path.slashed path).toList) ↔ IsCut ps (Path.slashed path).toList := by
    constructor
    · rintro ⟨qs, scan', cut⟩
      obtain rfl : ps = qs := Option.some.inj (read.symm.trans (pieces_of_scan scan'))
      exact cut
    · exact fun cut => ⟨ps, scan, cut⟩
  rw [only]
  unfold holds compile
  by_cases empty : pattern = ""
  · subst empty
    simp
  · have full : pattern.isEmpty = false := by simpa using empty
    rw [full, if_neg Bool.false_ne_true, read, Option.bind_some, compiled]
    show fits as (Path.slashed path).toList = true ↔ _
    rw [fits_iff_of_leaves leaves line']
    exact ⟨fun cut => ⟨empty, cut⟩, fun h => h.2⟩

/-- A path with a backslash that can be cut in more than one way. -/
theorem holds_iff_cut_nested :
    '[' ∉ "**/*b?/**".toList ∧ '\n' ∉ "x\\abb1/c".toList ∧ holds "**/*b?/**" "x\\abb1/c" = true ∧
      ∃ ps, Scan (Path.slashed "**/*b?/**").toList ps ∧
        IsCut ps (Path.slashed "x\\abb1/c").toList := by
  have bare : '[' ∉ "**/*b?/**".toList := by decide
  have line : '\n' ∉ "x\\abb1/c".toList := by decide
  have hit : holds "**/*b?/**" "x\\abb1/c" = true := by decide
  exact ⟨bare, line, hit, ((holds_iff_cut bare line).1 hit).2⟩

/-- **A backslash in a pattern does not take itself.**  It takes the slash of a path, which no
cut for the pattern as it is written allows. -/
theorem backslash_takes_slash :
    holds "a\\b" "a/b" = true ∧
      ¬ ∃ ps, Scan "a\\b".toList ps ∧ IsCut ps (Path.slashed "a/b").toList := by
  refine ⟨by decide, ?_⟩
  rintro ⟨ps, scan, parts, takes, eq⟩
  have read : pieces "a\\b".toList = some [.text 'a', .text '\\', .text 'b'] := by decide
  obtain rfl := Option.some.inj (read.symm.trans (pieces_of_scan scan))
  -- each piece takes itself, so the path would have to be the pattern
  cases takes with
  | cons first takes =>
    cases takes with
    | cons second takes =>
      cases takes with
      | cons third takes =>
        cases takes
        obtain rfl := first
        obtain rfl := second
        obtain rfl := third
        exact absurd eq (by decide)

end ModuleAtlas.Glob
