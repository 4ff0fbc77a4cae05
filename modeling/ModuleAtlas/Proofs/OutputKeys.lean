/-
ModuleAtlas/Proofs/OutputKeys.lean

Sources and outputs of one stem.

A source and what is built from it are files of one stem: the stem stands in a folder for sources
or outputs, with an ending behind it and perhaps with steps in front that stay (`FileOf`).  The key
takes all of that off again.  The three parts it takes off do not get into each other's way:
 * the steps in front end where the folder starts, which is no dot;
 * the ending goes as a whole, for the stem is no declaration without its last suffix, and its last
   segment has more than dots in it;
 * only the first folder goes, so a stem that starts with the name of such a folder keeps it.

So files of one stem have the stem as their key, and without a star in it a target of the stem
stands for the files of the stem and for no others.

Main result: `key_eq_and_isFor_iff`.
-/
import ModuleAtlas.Proofs.TargetKeys

namespace ModuleAtlas.Target

open ModuleAtlas.Path (lastOf segments ofSegments)

/-! ### Files of a stem -/

/-- The text can be a stem: it has slashes only, its last segment has more than dots in it, and no
suffix of sources makes a declaration of it. -/
structure IsStem (p : String) : Prop where
  slashes : '\\' ∉ p.toList
  named : ∃ c ∈ (Path.name p).toList, c ≠ '.'
  undeclared : ¬ ['.', 'd'] <:+ p.toList

/-- The text ends a file: it is the suffix of a declaration, or a dot and what has no further dots
and no slashes in it. -/
inductive IsEnding (e : String) : Prop
  | declaration (listed : e ∈ declarationSuffixes)
  | dotted (tail : List Char) (whole : e.toList = '.' :: tail) (last : '.' ∉ tail)
      (single : '/' ∉ tail) (slashes : '\\' ∉ tail)

/-- Steps in front that stay where they are. -/
def staying : Nat → List Char
  | 0 => []
  | n + 1 => '.' :: '/' :: staying n

/-- The path is that of a file of the stem in a folder for sources or outputs. -/
inductive FileOf (p path : String) : Prop
  | inRoot (n : Nat) (root e : String) (listed : root ∈ roots) (ending : IsEnding e)
      (whole : path.toList = staying n ++ (root.toList ++ '/' :: p.toList ++ e.toList))

variable {p q e root : String} {cs : List Char}

/-! ### What the key takes off -/

theorem withoutDots_staying_append (n : Nat) (cs : List Char) :
    withoutDots (staying n ++ cs) = withoutDots cs := by
  induction n with
  | zero => rfl
  | succ n ih =>
    show withoutDots ('.' :: '/' :: (staying n ++ cs)) = _
    rw [withoutDots, ih]

theorem withoutDots_of_head? (other : cs.head? ≠ some '.') : withoutDots cs = cs := by
  unfold withoutDots
  split
  · exact absurd rfl other
  · rfl

theorem withoutDots_root (listed : root ∈ roots) (cs : List Char) :
    withoutDots (root.toList ++ cs) = root.toList ++ cs := by
  have starts : ∀ r ∈ roots, r.toList ≠ [] ∧ r.toList.head? ≠ some '.' := by decide
  obtain ⟨full, other⟩ := starts root listed
  obtain ⟨c, rest, eq⟩ := List.exists_cons_of_ne_nil full
  apply withoutDots_of_head?
  rw [eq] at other ⊢
  exact other

theorem notMem_staying (n : Nat) : '\\' ∉ staying n := by
  induction n with
  | zero => exact List.not_mem_nil
  | succ n ih => simpa [staying] using ih

theorem IsEnding.notMem (h : IsEnding e) : '\\' ∉ e.toList := by
  cases h with
  | declaration listed =>
    have all : ∀ e ∈ declarationSuffixes, '\\' ∉ e.toList := by decide
    exact all e listed
  | dotted tail whole _ _ slashes =>
    rw [whole]
    simpa using slashes

/-- In a folder, the last segment of a stem is still its own. -/
theorem lastOf_root (root p : String) :
    lastOf (root.toList ++ '/' :: p.toList) = (Path.name p).toList := by
  have none : lastOf (root.toList ++ ['/']) = [] := by simp [lastOf]
  have same := Path.lastOf_append_of_nil none p.toList
  rw [List.append_assoc, List.singleton_append] at same
  rw [same, Path.name, String.toList_ofList]
  rfl

/-- In a folder, a stem becomes no declaration either. -/
theorem IsStem.ne_append (h : IsStem p) (root : String) (front : List Char) :
    root.toList ++ '/' :: p.toList ≠ front ++ ['.', 'd'] := by
  intro eq
  have full : p.toList ≠ [] := by
    obtain ⟨c, hc, -⟩ := h.named
    intro none
    rw [Path.name, none] at hc
    cases hc
  have ends : ['.', 'd'] <:+ root.toList ++ '/' :: p.toList := ⟨front, eq.symm⟩
  have long : ['.', 'd'].length ≤ ('/' :: p.toList).length := by
    have := List.length_pos_iff.2 full
    simp only [List.length_cons, List.length_nil]
    omega
  -- so short an end is not cut by the folder
  have inside : ['.', 'd'] <:+ '/' :: p.toList :=
    List.suffix_of_suffix_length_le ends (List.suffix_append _ _) long
  rcases List.suffix_cons_iff.1 inside with same | within
  · exact absurd (List.cons.inj same).1 (by decide)
  · exact h.undeclared within

/-- An ending is taken off as a whole. -/
theorem IsStem.stem_eq (h : IsStem p) (ending : IsEnding e) (root : String) :
    stem (root.toList ++ '/' :: p.toList ++ e.toList) = root.toList ++ '/' :: p.toList := by
  cases ending with
  | declaration listed =>
    have shape : ∀ e ∈ declarationSuffixes, ∃ s ∈ declared, e.toList = ['.', 'd'] ++ '.' :: s := by
      decide
    obtain ⟨s, hs, whole⟩ := shape e listed
    rw [whole, ← List.append_assoc]
    exact stem_declaration _ hs
  | dotted tail whole last single slashes =>
    rw [whole]
    refine stem_append last single ?_ fun _ => h.ne_append root
    rw [lastOf_root]
    exact h.named

/-- **The key of a file of a stem** is the stem. -/
theorem FileOf.key_eq {path : String} (file : FileOf p path) (h : IsStem p) : key path = p := by
  obtain ⟨n, root, e, listed, ending, whole⟩ := file
  have plain : ∀ r ∈ roots, '\\' ∉ r.toList := by decide
  have single : ∀ r ∈ roots, '/' ∉ r.toList := by decide
  have slashes : '\\' ∉ path.toList := by
    simp [whole, notMem_staying, plain root listed, h.slashes, ending.notMem]
  -- one segment goes from those of the folder and the stem
  have parts : withoutRoot (segments (root.toList ++ '/' :: p.toList)) = segments p.toList := by
    have split : segments (root.toList ++ '/' :: p.toList) = root.toList :: segments p.toList :=
      Text.split_append_cons (single root listed) p.toList
    rw [split]
    cases more : segments p.toList with
    | nil => exact absurd more (Text.split_ne_nil '/' p.toList)
    | cons second rest =>
      rw [withoutRoot, String.ofList_toList, if_pos (List.contains_iff_mem.2 listed)]
  have stems := h.stem_eq ending root
  unfold stem at stems
  unfold key
  rw [Path.slashed_of_notMem slashes, whole, withoutDots_staying_append, List.append_assoc,
    withoutDots_root listed, ← List.append_assoc]
  dsimp only
  rw [stems, parts, Path.ofSegments_segments, String.ofList_toList]

/-- **Sources and outputs share a key.**  Every file of a stem has the stem as its key, whatever
folder for sources or outputs it lies in, whatever it ends with, and however many steps that stay
are in front.  So a target of a stem without a star stands for every file of that stem, and for none
of another one. -/
theorem key_eq_and_isFor_iff (h : IsStem p) :
    (∀ path, FileOf p path → key path = p) ∧
      ('*' ∉ p.toList → ∀ target path, FileOf p target → IsStem q → FileOf q path →
        (isFor target path = true ↔ p = q)) := by
  refine ⟨fun path file => file.key_eq h, ?_⟩
  intro starless target path wanted h' given
  have none : p.toList.contains '*' = false := by simpa using starless
  unfold isFor
  rw [wanted.key_eq h, given.key_eq h']
  dsimp only
  rw [none, if_neg Bool.false_ne_true, beq_iff_eq]

/-- A stem that starts with the name of such a folder and has several dots: the declaration among
the outputs and the source have the same key. -/
theorem key_eq_and_isFor_iff_nested :
    IsStem "lib/.a.b" ∧ key "././dist/lib/.a.b.d.mts" = "lib/.a.b" ∧
      isFor "././dist/lib/.a.b.d.mts" "src/lib/.a.b.tsx" = true := by
  have stem : IsStem "lib/.a.b" := ⟨by decide, ⟨'a', by decide, by decide⟩, by decide⟩
  have output : FileOf "lib/.a.b" "././dist/lib/.a.b.d.mts" :=
    .inRoot 2 "dist" ".d.mts" (by decide) (.declaration (by decide)) (by decide)
  have source : FileOf "lib/.a.b" "src/lib/.a.b.tsx" :=
    .inRoot 0 "src" ".tsx" (by decide)
      (.dotted ['t', 's', 'x'] (by decide) (by decide) (by decide) (by decide)) (by decide)
  obtain ⟨keys, targets⟩ := key_eq_and_isFor_iff stem
  exact ⟨stem, keys _ output, (targets (by decide) _ _ output stem source).2 rfl⟩

end ModuleAtlas.Target
