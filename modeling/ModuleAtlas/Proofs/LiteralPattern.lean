/-
ModuleAtlas/Proofs/LiteralPattern.lean

Patterns that spell out a path.

Where a pattern has no star, mark or bracket, each character stands for itself.  Two signs for
folders can stand around such a text, and each of them can be empty: with `/**` behind it, the
text stands for itself and for all below it (`holds_below_iff`), and with `**/` in front as well, it
stands for each path that has it between two slashes, or between a slash and an end
(`holds_anywhere_iff`).  For a text without slashes that is to be one of the segments of the path.
-/
import ModuleAtlas.Proofs.GlobLanguage
import ModuleAtlas.Proofs.PlainPath

namespace ModuleAtlas

/-! ### Segments by what stands around them -/

namespace Text

variable {sep : Char} {s w : List Char}

theorem joinWith_cons_cases (sep : Char) (w : List Char) (ws : List (List Char)) :
    ∃ v, joinWith [sep] (w :: ws) = w ++ v ∧ (v = [] ∨ ∃ v', v = sep :: v') := by
  cases ws with
  | nil => exact ⟨[], (List.append_nil w).symm, .inl rfl⟩
  | cons u us =>
    refine ⟨sep :: joinWith [sep] (u :: us), ?_, .inr ⟨_, rfl⟩⟩
    show w ++ [sep] ++ joinWith [sep] (u :: us) = _
    rw [List.append_assoc]
    rfl

theorem joinWith_append {vs : List (List Char)} (some : vs ≠ []) (sep : Char)
    (ws : List (List Char)) :
    joinWith [sep] (ws ++ vs) = ws.flatMap (· ++ [sep]) ++ joinWith [sep] vs := by
  induction ws with
  | nil => rfl
  | cons w ws ih =>
    have more : ws ++ vs ≠ [] := List.append_ne_nil_of_right_ne_nil _ some
    rw [List.cons_append, joinWith_cons more, ih, List.flatMap_cons]
    simp only [List.append_assoc]

/-- A piece of a text stands behind its start or a separator, and before its end or a
separator. -/
theorem mem_split_iff :
    w ∈ split sep s ↔
      sep ∉ w ∧ ∃ u v, s = u ++ (w ++ v) ∧ (u = [] ∨ ∃ u', u = u' ++ [sep]) ∧
        (v = [] ∨ ∃ v', v = sep :: v') := by
  constructor
  · intro h
    refine ⟨notMem_of_mem_split h, ?_⟩
    obtain ⟨before, after, pieces⟩ := List.append_of_mem h
    obtain ⟨v, tail, ends⟩ := joinWith_cons_cases sep w after
    refine ⟨before.flatMap (· ++ [sep]), v, ?_, ?_, ends⟩
    · rw [← tail, ← joinWith_append (List.cons_ne_nil w after), ← pieces, joinWith_split]
    · rcases List.eq_nil_or_concat' before with rfl | ⟨more, last, rfl⟩
      · exact .inl rfl
      · exact .inr ⟨more.flatMap (· ++ [sep]) ++ last, by simp⟩
  · rintro ⟨free, u, v, rfl, starts, ends⟩
    have here : w ∈ split sep (w ++ v) := by
      rcases ends with rfl | ⟨v', rfl⟩
      · rw [List.append_nil, split_of_notMem free]
        exact List.mem_singleton.2 rfl
      · rw [split_append_cons free]
        exact List.mem_cons_self
    rcases starts with rfl | ⟨u', rfl⟩
    · exact here
    · rw [List.append_assoc, List.singleton_append, split_append]
      exact List.mem_append_right _ here

end Text

namespace Glob

/-! ### Texts that stand for themselves -/

/-- Every character of the text stands for itself in a pattern, and none is turned into another
one. -/
def IsLiteral (cs : List Char) : Prop := ∀ c ∈ cs, c ∉ ['*', '?', '[', '\\']

instance (cs : List Char) : Decidable (IsLiteral cs) := List.decidableBAll _ cs

variable {cs rest s : List Char} {ps : List Piece} {pattern path : String}

theorem IsLiteral.notMem {c : Char} (h : IsLiteral cs) (special : c ∈ ['*', '?', '[', '\\']) :
    c ∉ cs :=
  fun hc => h c hc special

theorem IsLiteral.append {ds : List Char} (h : IsLiteral cs) (h' : IsLiteral ds) :
    IsLiteral (cs ++ ds) := by
  intro c hc
  rcases List.mem_append.1 hc with hc | hc
  · exact h c hc
  · exact h' c hc

/-- The pieces of a literal text are its characters, whatever follows it but two stars alone: with
a slash before them they would be one piece. -/
theorem IsLiteral.scan_append (h : IsLiteral cs) (apart : rest ≠ ['*', '*']) (scan : Scan rest ps) :
    Scan (cs ++ rest) (cs.map .text ++ ps) := by
  induction cs with
  | nil => exact scan
  | cons c cs ih =>
    have h' : IsLiteral cs := fun d hd => h d (List.mem_cons_of_mem c hd)
    have plain : c ∉ ['*', '?', '['] := by
      intro special
      apply h c List.mem_cons_self
      simp only [List.mem_cons, List.not_mem_nil, or_false] at special ⊢
      rcases special with rfl | rfl | rfl <;> simp
    refine .text plain ?_ (ih h')
    intro stars
    have stars' : cs ++ rest = ['*', '*'] := (List.cons.inj stars).2
    cases cs with
    | nil => exact apart stars'
    | cons d cs =>
      refine h'.notMem (c := '*') (by simp) ?_
      rw [← (List.cons.inj stars').1]
      exact List.mem_cons_self

/-- To be cut for a literal text is to start with it. -/
theorem isCut_text_append :
    IsCut (cs.map .text ++ ps) s ↔ ∃ r, s = cs ++ r ∧ IsCut ps r := by
  induction cs generalizing s with
  | nil => simp
  | cons c cs ih =>
    rw [List.map_cons, List.cons_append, isCut_cons]
    constructor
    · rintro ⟨u, r, rfl, rfl, cut⟩
      obtain ⟨r', rfl, cut'⟩ := ih.1 cut
      exact ⟨r', rfl, cut'⟩
    · rintro ⟨r, rfl, cut⟩
      exact ⟨[c], cs ++ r, rfl, rfl, ih.2 ⟨r, rfl, cut⟩⟩

theorem isCut_below : IsCut [.below] s ↔ s = [] ∨ ∃ v, s = '/' :: v := by
  rw [isCut_cons]
  constructor
  · rintro ⟨u, r, takes, rfl, cut⟩
    rw [isCut_nil.1 cut, List.append_nil]
    exact takes
  · exact fun takes => ⟨s, [], takes, List.append_nil s, isCut_nil.2 rfl⟩

/-- A pattern whose pieces are known matches what can be cut for them. -/
theorem holds_iff_isCut (full : pattern ≠ "") (scan : Scan (Path.slashed pattern).toList ps)
    (line : '\n' ∉ path.toList) :
    holds pattern path = true ↔ IsCut ps (Path.slashed path).toList := by
  have line' : '\n' ∉ (Path.slashed path).toList := by
    rwa [mem_slashed (by decide) (by decide)]
  obtain ⟨as, compiled, leaves⟩ := exists_atoms scan
  have compile_eq : compile pattern = some as := by
    unfold compile
    rw [if_neg (by simpa using full), pieces_of_scan scan, Option.bind_some, compiled]
  unfold holds
  rw [compile_eq]
  exact fits_iff_of_leaves leaves line'

/-- The pieces of a literal text with something around it that has no backslashes. -/
theorem scan_slashed {front back : List Char} (h : IsLiteral cs) (plain : '\\' ∉ front ++ back)
    (scan : Scan (front ++ (cs ++ back)) ps) :
    Scan (Path.slashed (String.ofList (front ++ (cs ++ back)))).toList ps := by
  rw [List.mem_append, not_or] at plain
  have none : '\\' ∉ front ++ (cs ++ back) := by
    rw [List.mem_append, List.mem_append, not_or, not_or]
    exact ⟨plain.1, h.notMem (by simp), plain.2⟩
  rwa [Path.slashed_ofList none, String.toList_ofList]

/-! ### What literal texts match -/

/-- A literal text matches itself. -/
theorem holds_literal_iff (h : IsLiteral cs) (full : cs ≠ []) (line : '\n' ∉ path.toList) :
    holds (String.ofList cs) path = true ↔ (Path.slashed path).toList = cs := by
  have scan : Scan ([] ++ (cs ++ [])) (cs.map .text ++ []) := h.scan_append (by simp) .done
  have scan' := scan_slashed h (by simp) scan
  rw [List.nil_append, List.append_nil] at scan'
  rw [holds_iff_isCut (by simpa using full) scan' line, isCut_text_append]
  simp [isCut_nil]

/-- With two stars behind a slash, a literal text matches itself and all below it. -/
theorem holds_below_iff (h : IsLiteral cs) (line : '\n' ∉ path.toList) :
    holds (String.ofList (cs ++ ['/', '*', '*'])) path = true ↔
      (Path.slashed path).toList = cs ∨ cs ++ ['/'] <+: (Path.slashed path).toList := by
  have scan : Scan ([] ++ (cs ++ ['/', '*', '*'])) (cs.map .text ++ [.below]) :=
    h.scan_append (by decide) .last
  have scan' := scan_slashed h (by decide) scan
  rw [List.nil_append] at scan'
  rw [holds_iff_isCut (by simp) scan' line, isCut_text_append]
  simp only [isCut_below]
  constructor
  · rintro ⟨r, eq, rfl | ⟨v, rfl⟩⟩
    · exact .inl (eq.trans (List.append_nil cs))
    · exact .inr ⟨v, by rw [eq, List.append_assoc]; rfl⟩
  · rintro (eq | ⟨v, eq⟩)
    · exact ⟨[], eq.trans (List.append_nil cs).symm, .inl rfl⟩
    · exact ⟨'/' :: v, by rw [← eq, List.append_assoc]; rfl, .inr ⟨v, rfl⟩⟩

/-- **With signs for folders around it**, a literal name matches each path that has it among its
segments. -/
theorem holds_anywhere_iff (h : IsLiteral cs) (single : '/' ∉ cs) (line : '\n' ∉ path.toList) :
    holds (String.ofList (['*', '*', '/'] ++ (cs ++ ['/', '*', '*']))) path = true ↔
      cs ∈ Path.segments (Path.slashed path).toList := by
  have scan : Scan (['*', '*', '/'] ++ (cs ++ ['/', '*', '*']))
      (.folders :: (cs.map .text ++ [.below])) :=
    .folders (h.scan_append (by decide) .last)
  rw [holds_iff_isCut (by simp) (scan_slashed h (by decide) scan) line, isCut_cons]
  simp only [isCut_text_append, isCut_below]
  unfold Path.segments
  rw [Text.mem_split_iff]
  -- the first piece takes what is in front of the name, and the last one what is behind it
  constructor
  · rintro ⟨u, r, front, eq, v, rfl, back⟩
    exact ⟨single, u, v, eq.symm, front, back⟩
  · rintro ⟨-, u, v, eq, front, back⟩
    exact ⟨u, cs ++ v, front, eq.symm, v, rfl, back⟩

end Glob

end ModuleAtlas
