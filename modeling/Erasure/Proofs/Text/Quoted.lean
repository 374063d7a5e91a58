import Erasure.Text.Quoted
import Erasure.Token.Escape

/-!
String literals and accesses to properties are read back as the string or property that they were
written for, so different ones have different texts.
-/

namespace Erasure.Text

/-- The first character of a text inside double quotes, and the rest. -/
def unquoteChar? : List Char → Option (Char × List Char)
  | '\\' :: 'u' :: a :: b :: c :: d :: rest =>
      let code := [a, b, c, d].foldl (fun n digit => 16 * n + hexDigitValue digit) 0
      some (Char.ofNat code, rest)
  | '\\' :: 'n' :: rest => some ('\n', rest)
  | '\\' :: 'r' :: rest => some ('\r', rest)
  | '\\' :: 't' :: rest => some ('\t', rest)
  | '\\' :: c :: rest => some (c, rest)
  | c :: rest => some (c, rest)
  | [] => none

theorem hexDigitValue_hexDigit {n : Nat} (h : n < 16) : hexDigitValue (hexDigit n) = n := by
  have htable : ∀ n < 16, hexDigitValue (hexDigit n) = n := by decide
  exact htable n h

/-- The characters that are escaped by a single one, with that character before them. -/
def letterEscapes : List (Char × Char) :=
  [('"', '"'), ('\\', '\\'), ('n', '\n'), ('r', '\r'), ('t', '\t')]

/-- A character is escaped by a letter or by four digits, or stands for itself. -/
theorem quoteChar_cases (c : Char) :
    (∃ x, (x, c) ∈ letterEscapes ∧ quoteChar c = ['\\', x]) ∨
    (∃ v x y z, [v, x, y, z].all isHexDigit = true ∧ Escape.hexValue [v, x, y, z] = c.toNat ∧
      quoteChar c = ['\\', 'u', v, x, y, z]) ∨
    (quoteChar c = [c] ∧ c ≠ '"' ∧ c ≠ '\\' ∧ c ≠ '\n' ∧ c ≠ '\r') := by
  by_cases hquote : c = '"'
  · subst hquote
    exact .inl ⟨'"', by decide, rfl⟩
  by_cases hslash : c = '\\'
  · subst hslash
    exact .inl ⟨'\\', by decide, rfl⟩
  by_cases hfeed : c = '\n'
  · subst hfeed
    exact .inl ⟨'n', by decide, rfl⟩
  by_cases hreturn : c = '\r'
  · subst hreturn
    exact .inl ⟨'r', by decide, rfl⟩
  by_cases htab : c = '\t'
  · subst htab
    exact .inl ⟨'t', by decide, rfl⟩
  by_cases hline : c = '\u2028'
  · subst hline
    exact .inr (.inl ⟨'2', '0', '2', '8', by decide, by decide, rfl⟩)
  by_cases hparagraph : c = '\u2029'
  · subst hparagraph
    exact .inr (.inl ⟨'2', '0', '2', '9', by decide, by decide, rfl⟩)
  rw [quoteChar, if_neg hquote, if_neg hslash, if_neg hfeed, if_neg hreturn, if_neg htab,
    if_neg hline, if_neg hparagraph]
  by_cases hcontrol : c.toNat < 0x20
  · rw [if_pos hcontrol]
    refine .inr (.inl ⟨'0', '0', hexDigit (c.toNat / 16), hexDigit (c.toNat % 16), ?_, ?_, rfl⟩)
    · have table : ∀ n < 16, isHexDigit (hexDigit n) = true := by decide
      have hzero : isHexDigit '0' = true := by decide
      simp [hzero, table (c.toNat / 16) (by omega), table (c.toNat % 16) (by omega)]
    · have hhigh := hexDigitValue_hexDigit (n := c.toNat / 16) (by omega)
      have hlow := hexDigitValue_hexDigit (n := c.toNat % 16) (by omega)
      have hzero : hexDigitValue '0' = 0 := rfl
      simp only [Escape.hexValue, List.foldl_cons, List.foldl_nil, hhigh, hlow, hzero]
      omega
  · exact .inr (.inr ⟨if_neg hcontrol, hquote, hslash, hfeed, hreturn⟩)

theorem unquoteChar?_quoteChar (c : Char) (rest : List Char) :
    unquoteChar? (quoteChar c ++ rest) = some (c, rest) := by
  rcases quoteChar_cases c with ⟨x, hmem, hq⟩ | ⟨v, x, y, z, -, hvalue, hq⟩ | ⟨hq, -, hslash, -, -⟩
  · rw [hq]
    simp only [letterEscapes, List.mem_cons, Prod.mk.injEq, List.not_mem_nil, or_false] at hmem
    rcases hmem with ⟨rfl, rfl⟩ | ⟨rfl, rfl⟩ | ⟨rfl, rfl⟩ | ⟨rfl, rfl⟩ | ⟨rfl, rfl⟩ <;> rfl
  · have hcode : [v, x, y, z].foldl (fun n digit => 16 * n + hexDigitValue digit) 0 = c.toNat := by
      simp only [Escape.hexValue, List.foldl_cons, List.foldl_nil] at hvalue ⊢
      omega
    rw [hq]
    show some (Char.ofNat ([v, x, y, z].foldl _ 0), rest) = _
    rw [hcode, Char.ofNat_toNat]
  · rw [hq]
    simp [unquoteChar?, hslash]

theorem flatMap_quoteChar_inj {cs ds : List Char}
    (h : cs.flatMap quoteChar = ds.flatMap quoteChar) :
    cs = ds := by
  induction cs generalizing ds with
  | nil =>
      cases ds with
      | nil => rfl
      | cons d ds =>
          have hfirst := unquoteChar?_quoteChar d (ds.flatMap quoteChar)
          rw [← List.flatMap_cons, ← h] at hfirst
          cases hfirst
  | cons c cs ih =>
      have hfirst := unquoteChar?_quoteChar c (cs.flatMap quoteChar)
      rw [← List.flatMap_cons, h] at hfirst
      cases ds with
      | nil => cases hfirst
      | cons d ds =>
          rw [List.flatMap_cons, unquoteChar?_quoteChar] at hfirst
          obtain ⟨rfl, hrest⟩ := Prod.mk.inj (Option.some.inj hfirst)
          rw [ih hrest.symm]

theorem quote_inj {s t : String} (h : quote s = quote t) : s = t := by
  have hlist := List.append_cancel_right (List.cons.inj (String.ofList_injective h)).2
  exact String.toList_injective (flatMap_quoteChar_inj hlist)

/-- Properties of an object are written alike only if they have the same name. -/
theorem memberAccess_inj {object a b : String} (h : memberAccess object a = memberAccess object b) :
    a = b := by
  have hlist := congrArg String.toList h
  unfold memberAccess at hlist
  split at hlist <;> split at hlist
  · simp only [String.toList_append, List.append_cancel_left_eq] at hlist
    exact String.toList_injective hlist
  · simp [String.toList_append] at hlist
  · simp [String.toList_append] at hlist
  · simp only [String.toList_append, List.append_cancel_left_eq,
      List.append_cancel_right_eq] at hlist
    exact quote_inj (String.toList_injective hlist)

end Erasure.Text
