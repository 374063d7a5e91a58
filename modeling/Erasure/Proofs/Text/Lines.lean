import Mathlib.Data.List.DropRight
import Erasure.Text.Character

/-!
Characters and lines of a text: which characters stand in names, the blanks around lines, and where
a block comment ends in them.
-/

namespace Erasure.Text

theorem isIdentifierPart_of_isIdentifierStart {c : Char} (h : isIdentifierStart c = true) :
    isIdentifierPart c = true := by
  rw [isIdentifierStart, Bool.or_eq_true, Bool.or_eq_true, Bool.or_eq_true, Bool.and_eq_true] at h
  rcases h with ((h | h) | h) | ⟨hwide, h⟩
  · rw [isIdentifierPart, h, Bool.true_or, Bool.true_or, Bool.true_or, Bool.true_or]
  · rw [isIdentifierPart, h, Bool.or_true, Bool.true_or, Bool.true_or]
  · rw [isIdentifierPart, h, Bool.or_true, Bool.true_or]
  · rw [isIdentifierPart, hwide, h, Bool.true_or, Bool.true_or, Bool.true_or, Bool.and_true,
      Bool.or_true]

theorem isIdentifierStart_eq_false {c : Char} (h : isIdentifierPart c = false) :
    isIdentifierStart c = false :=
  Bool.eq_false_iff.mpr fun hstart =>
    Bool.false_ne_true (h.symm.trans (isIdentifierPart_of_isIdentifierStart hstart))

theorem isIdentifierPart_of_isDigit {c : Char} (h : c.isDigit = true) :
    isIdentifierPart c = true := by
  have hdigit : isAsciiDigit c = true := h
  rw [isIdentifierPart, hdigit]
  simp

/-- The blanks outside of ASCII, by their code. -/
def wideBlanks : List Nat :=
  [0x85, 0xa0, 0x1680, 0x2000, 0x2001, 0x2002, 0x2003, 0x2004, 0x2005, 0x2006, 0x2007, 0x2008,
   0x2009, 0x200a, 0x2028, 0x2029, 0x202f, 0x205f, 0x3000, 0xfeff]

theorem not_named_wideBlanks :
    (wideBlanks.all fun n => !((alphabeticRanges.toList.any fun r => r.contains n) ||
      numericRanges.toList.any fun r => r.contains n)) = true := by
  decide +kernel

theorem isIdentifierPart_of_wideBlank {c : Char} (h : c.toNat ∈ wideBlanks) :
    isIdentifierPart c = false := by
  have hnamed := List.all_eq_true.mp not_named_wideBlanks _ h
  rw [Bool.not_eq_true', Bool.or_eq_false_iff] at hnamed
  have hplace : 0x80 ≤ c.toNat ∧ c.toNat ≠ 0x200c ∧ c.toNat ≠ 0x200d := by
    have table : ∀ n ∈ wideBlanks, 0x80 ≤ n ∧ n ≠ 0x200c ∧ n ≠ 0x200d := by decide
    exact table _ h
  obtain ⟨hwide, hnonJoiner, hjoiner⟩ := hplace
  have hc : c.val.toNat = c.toNat := rfl
  have hletter : isAsciiLetter c = false := by
    simp only [isAsciiLetter, Bool.or_eq_false_iff, Bool.and_eq_false_iff, decide_eq_false_iff_not,
      Char.le_def, UInt32.le_iff_toNat_le]
    have hz : 'z'.val.toNat = 122 := rfl
    have hZ : 'Z'.val.toNat = 90 := rfl
    omega
  have hdigit : isAsciiDigit c = false := by
    simp only [isAsciiDigit, Bool.and_eq_false_iff, decide_eq_false_iff_not, Char.le_def,
      UInt32.le_iff_toNat_le]
    have h9 : '9'.val.toNat = 57 := rfl
    omega
  have hne (d : Char) (hd : c.toNat ≠ d.toNat) : decide (c = d) = false :=
    decide_eq_false fun heq => hd (congrArg Char.toNat heq)
  have hlow (d : Char) (hd : d.toNat < 0x80) : decide (c = d) = false := hne d (by omega)
  rw [isIdentifierPart, hletter, hdigit, hlow '$' (by decide), hlow '_' (by decide), inRanges,
    inRanges, ← Array.any_toList, ← Array.any_toList, hnamed.1, hnamed.2,
    hne '\u200c' hnonJoiner, hne '\u200d' hjoiner]
  simp

theorem isIdentifierPart_of_isLineBreak {c : Char} (h : isLineBreak c = true) :
    isIdentifierPart c = false := by
  simp only [isLineBreak, Bool.or_eq_true, decide_eq_true_eq] at h
  rcases h with ((rfl | rfl) | rfl) | rfl
  · decide
  · decide
  · exact isIdentifierPart_of_wideBlank (by decide)
  · exact isIdentifierPart_of_wideBlank (by decide)

theorem isIdentifierPart_of_isInlineBlank {c : Char} (h : isInlineBlank c = true) :
    isIdentifierPart c = false := by
  unfold isInlineBlank at h
  split at h
  · rename_i hc
    simp only [Bool.or_eq_true, decide_eq_true_eq] at hc
    rcases hc with ((((rfl | rfl) | rfl) | rfl) | rfl) | rfl
    · decide
    · decide
    · decide
    · decide
    · exact isIdentifierPart_of_wideBlank (by decide)
    · exact isIdentifierPart_of_wideBlank (by decide)
  · split at h
    · cases h
    · rename_i hwide
      have hblank := (Bool.and_eq_true_iff.mp h).1
      refine isIdentifierPart_of_wideBlank ?_
      simp only [isAscii, decide_eq_true_eq] at hwide
      simp only [isBlank, Bool.or_eq_true, Bool.and_eq_true, decide_eq_true_eq, beq_iff_eq]
        at hblank
      simp only [wideBlanks, List.mem_cons, List.not_mem_nil, or_false]
      omega

theorem isIdentifierStart_of_isLineBreak {c : Char} (h : isLineBreak c = true) :
    isIdentifierStart c = false :=
  isIdentifierStart_eq_false (isIdentifierPart_of_isLineBreak h)

theorem isIdentifierStart_of_isInlineBlank {c : Char} (h : isInlineBlank c = true) :
    isIdentifierStart c = false :=
  isIdentifierStart_eq_false (isIdentifierPart_of_isInlineBlank h)

theorem isIdentifierStart_of_isAsciiDigit {c : Char} (h : isAsciiDigit c = true) :
    isIdentifierStart c = false := by
  simp only [isAsciiDigit, Bool.and_eq_true, decide_eq_true_eq, Char.le_def,
    UInt32.le_iff_toNat_le] at h
  have h0 : '0'.val.toNat = 48 := rfl
  have h9 : '9'.val.toNat = 57 := rfl
  have hc : c.val.toNat = c.toNat := rfl
  have hne (d : Char) (hd : 57 < d.toNat ∨ d.toNat < 48) : c ≠ d := fun heq => by
    rw [heq] at h hc
    omega
  have hletter : isAsciiLetter c = false := by
    simp only [isAsciiLetter, Bool.or_eq_false_iff, Bool.and_eq_false_iff, decide_eq_false_iff_not,
      Char.le_def, UInt32.le_iff_toNat_le]
    have ha : 'a'.val.toNat = 97 := rfl
    have hA : 'A'.val.toNat = 65 := rfl
    omega
  have hascii : isAscii c = true := decide_eq_true (by omega)
  rw [isIdentifierStart, hletter, decide_eq_false (hne '$' (by decide)),
    decide_eq_false (hne '_' (by decide)), hascii]
  rfl

theorem isLineBreak_or_isInlineBlank {c : Char} (h : isBlank c = true) :
    isLineBreak c = true ∨ isInlineBlank c = true := by
  cases hl : isLineBreak c with
  | true => exact .inl rfl
  | false =>
      right
      unfold isInlineBlank
      split
      · rfl
      · split
        · rename_i hne hascii
          exfalso
          simp only [Bool.or_eq_true, Bool.or_eq_false_iff, decide_eq_true_eq,
            decide_eq_false_iff_not, isLineBreak, not_or, ← Char.toNat_inj,
            Char.reduceToNat] at hne hl
          simp only [isBlank, isAscii, Bool.or_eq_true, Bool.and_eq_true, decide_eq_true_eq,
            beq_iff_eq] at h hascii
          omega
        · rw [h, hl]
          rfl

theorem flatten_lines (cs : List Char) : (lines cs).flatten = cs := by
  induction cs with
  | nil => rfl
  | cons c cs ih =>
      unfold lines
      split
      · rw [List.flatten_cons, ih, List.singleton_append]
      · cases hl : lines cs with
        | nil =>
            rw [hl] at ih
            rw [← ih]
            rfl
        | cons line rest =>
            rw [hl] at ih
            rw [← ih]
            rfl

/-- Every line but the last ends with a line feed. -/
theorem pairwise_lines (cs : List Char) :
    (lines cs).Pairwise fun line _ => line.getLast? = some '\n' := by
  induction cs with
  | nil => exact .nil
  | cons c cs ih =>
      unfold lines
      split
      · rename_i hc
        exact List.pairwise_cons.mpr ⟨fun _ _ => by rw [hc]; rfl, ih⟩
      · cases hl : lines cs with
        | nil => exact List.pairwise_singleton _ _
        | cons line rest =>
            rw [hl] at ih
            obtain ⟨hline, hrest⟩ := List.pairwise_cons.mp ih
            refine List.pairwise_cons.mpr ⟨fun next hnext => ?_, hrest⟩
            rw [List.getLast?_cons, hline next hnext]
            rfl

theorem trimChars_split (cs : List Char) : ∃ lead trail, cs = lead ++ (trimChars cs ++ trail) ∧
    (∀ c ∈ lead, isBlank c = true) ∧ ∀ c ∈ trail, isBlank c = true := by
  refine ⟨cs.takeWhile isBlank, (cs.dropWhile isBlank).rtakeWhile isBlank, ?_,
    fun c hc => List.mem_takeWhile_imp hc, fun c hc => List.mem_rtakeWhile_imp hc⟩
  have hdrop : trimChars cs ++ (cs.dropWhile isBlank).rtakeWhile isBlank = cs.dropWhile isBlank :=
    List.rdropWhile_append_rtakeWhile
  rw [hdrop, List.takeWhile_append_dropWhile]

theorem not_isBlank_of_mem_getLast?_trimChars {cs : List Char} {c : Char}
    (h : c ∈ (trimChars cs).getLast?) : isBlank c = false := by
  have hne : trimChars cs ≠ [] := by
    rintro hnil
    rw [hnil] at h
    cases h
  have hlast := List.rdropWhile_last_not isBlank (cs.dropWhile isBlank) hne
  rw [List.getLast?_eq_some_getLast hne, Option.mem_some_iff] at h
  rw [← h]
  exact eq_false_of_ne_true hlast

theorem dropEndWhile_append_cons {p : Char → Bool} {c : Char} (h : p c = false)
    (cs ds : List Char) : dropEndWhile p (cs ++ c :: ds) = cs ++ c :: dropEndWhile p ds := by
  unfold dropEndWhile
  rw [List.reverse_append, List.reverse_cons, List.append_assoc, List.dropWhile_append]
  split
  · rename_i hnil
    rw [List.singleton_append, List.dropWhile_cons_of_neg (by simp [h]), List.isEmpty_iff.mp hnil]
    simp
  · simp

theorem hasInfix_iff (word cs : List Char) : hasInfix word cs = true ↔ word <:+: cs := by
  induction cs with
  | nil => rw [hasInfix, List.isEmpty_iff, List.infix_nil]
  | cons c cs ih =>
      rw [hasInfix, Bool.or_eq_true, List.isPrefixOf_iff_prefix, ih, List.infix_cons_iff]

/-- What holds no end of a comment, and does not stop within one, adds none. -/
theorem hasInfix_append_left {before : List Char} (cs : List Char)
    (h : hasInfix ['*', '/'] before = false) (hlast : before.getLast? ≠ some '*') :
    hasInfix ['*', '/'] (before ++ cs) = hasInfix ['*', '/'] cs := by
  induction before with
  | nil => rfl
  | cons x xs ih =>
      rw [hasInfix, Bool.or_eq_false_iff] at h
      cases xs with
      | nil =>
          have hx : ('*' == x) = false := by
            rw [beq_eq_false_iff_ne]
            rintro rfl
            exact hlast rfl
          rw [List.singleton_append, hasInfix, List.isPrefixOf, hx]
          rfl
      | cons y ys =>
          rw [List.getLast?_cons_cons] at hlast
          have hp : ['*', '/'].isPrefixOf (x :: (y :: ys ++ cs)) = false := h.1
          rw [List.cons_append, hasInfix, ih h.2 hlast, hp, Bool.false_or]

/-- What holds no slash ends no comment. -/
theorem hasInfix_append_right {after : List Char} (h : '/' ∉ after) (cs : List Char) :
    hasInfix ['*', '/'] (cs ++ after) = hasInfix ['*', '/'] cs := by
  induction cs with
  | nil =>
      rw [Bool.eq_iff_iff, List.nil_append, hasInfix_iff, hasInfix_iff]
      refine iff_of_false (fun hin => h (hin.subset (by simp))) (by simp)
  | cons x xs ih =>
      have hp : ['*', '/'].isPrefixOf (x :: (xs ++ after)) = ['*', '/'].isPrefixOf (x :: xs) := by
        cases xs with
        | cons y ys => rfl
        | nil =>
            cases after with
            | nil => rfl
            | cons y ys =>
                have hy : ('/' == y) = false := by
                  rw [beq_eq_false_iff_ne]
                  rintro rfl
                  exact h List.mem_cons_self
                simp [List.isPrefixOf, hy]
      rw [List.cons_append, hasInfix, hasInfix, hp, ih]

end Erasure.Text
