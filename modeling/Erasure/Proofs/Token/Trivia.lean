import Mathlib.Data.List.TakeWhile
import Erasure.Proofs.Token.Scanner

/-!
What stands between tokens: blanks, line breaks, comments, and a shebang at the start of the text.
Going on to the next token passes over nothing else.
-/

namespace Erasure

/-- From the first text on, blanks and comments lead to the second. A line comment ends where its
line ends, a block comment at the first `*/`, or with the text if there is none; a shebang stands
only at the start. -/
inductive Trivia : Bool → List Char → List Char → Prop where
  | refl (atStart : Bool) (cs : List Char) : Trivia atStart cs cs
  | blank {atStart : Bool} {c : Char} {cs ds : List Char}
      (h : Text.isLineBreak c = true ∨ Text.isInlineBlank c = true) (next : Trivia false cs ds) :
      Trivia atStart (c :: cs) ds
  | shebang {body cs ds : List Char} (hbody : ∀ c ∈ body, c ≠ '\n' ∧ c ≠ '\r')
      (hend : ∀ c ∈ cs.head?, c = '\n' ∨ c = '\r') (next : Trivia false cs ds) :
      Trivia true ('#' :: '!' :: (body ++ cs)) ds
  | lineComment {atStart : Bool} {body cs ds : List Char}
      (hbody : ∀ c ∈ body, Text.isLineBreak c = false)
      (hend : ∀ c ∈ cs.head?, Text.isLineBreak c = true) (next : Trivia false cs ds) :
      Trivia atStart ('/' :: '/' :: (body ++ cs)) ds
  | blockComment {atStart : Bool} {body cs ds : List Char}
      (hbody : Text.hasInfix ['*', '/'] (body ++ ['*']) = false) (next : Trivia false cs ds) :
      Trivia atStart ('/' :: '*' :: (body ++ '*' :: '/' :: cs)) ds
  | openComment {atStart : Bool} {body : List Char}
      (hbody : Text.hasInfix ['*', '/'] body = false) : Trivia atStart ('/' :: '*' :: body) []

theorem blockCommentLength?_eq_none {cs : List Char} (h : blockCommentLength? cs = none) :
    Text.hasInfix ['*', '/'] cs = false := by
  fun_induction blockCommentLength? cs with
  | case1 => rfl
  | case2 => cases h
  | case3 c cs hne ih =>
      have hcs := Option.map_eq_none_iff.mp h
      simp only [Text.hasInfix, ih hcs, Bool.or_false]
      cases cs with
      | nil => simp [List.isPrefixOf]
      | cons d ds =>
          simp only [List.isPrefixOf, Bool.and_true, Bool.and_eq_false_iff, beq_eq_false_iff_ne]
          by_cases hc : '*' = c
          · refine .inr fun hd => ?_
            subst hc hd
            exact hne ds rfl rfl
          · exact .inl hc

/-- The end of a block comment is its first one. -/
theorem blockCommentLength?_eq_some {cs : List Char} {n : Nat}
    (h : blockCommentLength? cs = some n) :
    ∃ body, cs = body ++ '*' :: '/' :: cs.drop n ∧ body.length + 2 = n ∧
      Text.hasInfix ['*', '/'] (body ++ ['*']) = false := by
  fun_induction blockCommentLength? cs generalizing n with
  | case1 => cases h
  | case2 cs =>
      cases h
      exact ⟨[], rfl, rfl, rfl⟩
  | case3 c cs hne ih =>
      obtain ⟨m, hm, rfl⟩ := Option.map_eq_some_iff.mp h
      obtain ⟨body, heq, hlen, hin⟩ := ih hm
      refine ⟨c :: body, ?_, by simp only [List.length_cons]; omega, ?_⟩
      · rw [List.drop_succ_cons, List.cons_append, ← heq]
      · simp only [List.cons_append, Text.hasInfix, hin, Bool.or_false]
        cases body with
        | nil => simp [List.isPrefixOf]
        | cons d ds =>
            simp only [List.cons_append, List.isPrefixOf, Bool.and_true, Bool.and_eq_false_iff,
              beq_eq_false_iff_ne]
            by_cases hc : '*' = c
            · refine .inr fun hd => ?_
              subst hc hd
              exact hne _ rfl (by rw [heq]; rfl)
            · exact .inl hc

theorem not_of_mem_head?_dropWhile {p : Char → Bool} {cs : List Char} {c : Char}
    (h : c ∈ (cs.dropWhile p).head?) : p c = false := by
  have hnot := List.head?_dropWhile_not p cs
  rw [Option.mem_def.mp h] at hnot
  simpa using hnot

theorem length_dropWhile_lt {p : Char → Bool} {c : Char} (cs : List Char) (h : p c = true) :
    ((c :: cs).dropWhile p).length < (c :: cs).length := by
  rw [List.dropWhile_cons_of_pos h, List.length_cons]
  exact Nat.lt_succ_of_le (List.dropWhile_suffix p).length_le

namespace Trivia

/-- What is trivia inside a text is trivia at its start. -/
theorem ofInside {atStart : Bool} {cs ds : List Char} (h : Trivia false cs ds) :
    Trivia atStart cs ds := by
  cases h with
  | refl => exact .refl _ _
  | blank h next => exact .blank h next
  | lineComment hbody hend next => exact .lineComment hbody hend next
  | blockComment hbody next => exact .blockComment hbody next
  | openComment hbody => exact .openComment hbody

theorem trans {atStart : Bool} {cs ds es : List Char} (h : Trivia atStart cs ds)
    (h' : Trivia false ds es) : Trivia atStart cs es := by
  induction h with
  | refl => exact h'.ofInside
  | blank h _ ih => exact .blank h (ih h')
  | shebang hbody hend _ ih => exact .shebang hbody hend (ih h')
  | lineComment hbody hend _ ih => exact .lineComment hbody hend (ih h')
  | blockComment hbody _ ih => exact .blockComment hbody (ih h')
  | openComment hbody =>
      cases h'
      exact .openComment hbody

/-- A line comment leads to the end of its line. -/
theorem restOfLine (cs : List Char) :
    Trivia false ('/' :: '/' :: cs) (cs.dropWhile fun c => !Text.isLineBreak c) := by
  have h := @lineComment false (cs.takeWhile fun c => !Text.isLineBreak c)
    (cs.dropWhile fun c => !Text.isLineBreak c) _
    (fun c hc => by simpa using List.mem_takeWhile_imp hc)
    (fun c hc => by simpa using not_of_mem_head?_dropWhile hc) (.refl _ _)
  rwa [List.takeWhile_append_dropWhile] at h

end Trivia

namespace Scanner

theorem passes_noteComment (s : Scanner) (start : Cursor) (isBlock : Bool) :
    Passes 0 s (s.noteComment start isBlock) := by
  unfold noteComment
  split
  · exact Passes.refl s
  · exact { Passes.refl s with comments := List.suffix_cons _ _ }

theorem cursor_noteComment (s : Scanner) (start : Cursor) (isBlock : Bool) :
    (s.noteComment start isBlock).cursor = s.cursor := by
  unfold noteComment
  split <;> rfl

theorem passes_skipLineComment (s : Scanner) : Passes 0 s s.skipLineComment :=
  (passes_skipWhile s _).trans (passes_noteComment _ _ _)

theorem rest_skipLineComment (s : Scanner) :
    s.skipLineComment.cursor.rest = s.cursor.rest.dropWhile fun c => !Text.isLineBreak c := by
  rw [skipLineComment, cursor_noteComment, Cursor.rest_skipWhile]

theorem commentsRev_error (s : Scanner) (m : Message) (start length : Nat) :
    (s.error m start length).commentsRev = s.commentsRev := by
  unfold error
  dsimp only
  split <;> rfl

/-- A block comment is noted once it is passed over. -/
theorem skipBlockComment_eq (s : Scanner) : ∃ t : Scanner,
    s.skipBlockComment = t.noteComment s.cursor true ∧ Passes 0 s t ∧
      t.commentsRev = s.commentsRev := by
  refine ⟨_, rfl, ?_, ?_⟩
  · split
    · exact Passes.ite _ (((passes_advance s _).mono (Nat.zero_le _)).withFlags _)
        ((passes_advance s _).mono (Nat.zero_le _))
    · have h : Passes 0 s _ := (passes_error s .unterminatedComment s.source.utf8ByteSize 0).trans
        (passes_skipWhile _ fun _ => true)
      exact Passes.ite _ (h.withFlags _) h
  · rw [apply_ite commentsRev, show ∀ t : Scanner, t.markLineBreak.commentsRev = t.commentsRev
      from fun _ => rfl, ite_self]
    split
    · rfl
    · exact commentsRev_error s _ _ _

theorem passes_skipBlockComment (s : Scanner) : Passes 0 s s.skipBlockComment := by
  obtain ⟨t, heq, hp, -⟩ := skipBlockComment_eq s
  rw [heq]
  exact hp.trans (passes_noteComment t _ _)

theorem cursor_error (s : Scanner) (m : Message) (start length : Nat) :
    (s.error m start length).cursor = s.cursor := by
  unfold error
  dsimp only
  split <;> rfl

theorem cursor_markLineBreak (s : Scanner) : s.markLineBreak.cursor = s.cursor := rfl

/-- A block comment ends at its first end, or with the text. -/
theorem cursor_skipBlockComment (s : Scanner) :
    s.skipBlockComment.cursor =
      match blockCommentLength? (s.cursor.rest.drop 2) with
      | some n => s.cursor.advance (n + 2)
      | none => s.cursor.skipWhile fun _ => true := by
  unfold skipBlockComment
  dsimp only
  rw [cursor_noteComment, apply_ite Scanner.cursor, cursor_markLineBreak, ite_self]
  cases blockCommentLength? (s.cursor.rest.drop 2) with
  | some n => rfl
  | none => exact congrArg (Cursor.skipWhile fun _ => true) (cursor_error _ _ _ _)

theorem rest_skipBlockComment (s : Scanner) :
    s.skipBlockComment.cursor.rest =
      match blockCommentLength? (s.cursor.rest.drop 2) with
      | some n => s.cursor.rest.drop (n + 2)
      | none => [] := by
  rw [cursor_skipBlockComment]
  cases blockCommentLength? (s.cursor.rest.drop 2) with
  | some n => exact Cursor.rest_advance _ _
  | none =>
      refine (Cursor.rest_skipWhile _ _).trans ?_
      exact List.dropWhile_eq_nil_iff.mpr fun _ _ => rfl

theorem trivia_skipLineComment {s : Scanner} {cs ds : List Char} {atStart : Bool}
    (hr : s.cursor.rest = '/' :: '/' :: cs) (h : Trivia false s.skipLineComment.cursor.rest ds) :
    Trivia atStart s.cursor.rest ds := by
  have hrest : s.skipLineComment.cursor.rest = cs.dropWhile fun c => !Text.isLineBreak c := by
    rw [rest_skipLineComment, hr]
    rfl
  rw [hrest] at h
  rw [hr]
  exact ((Trivia.restOfLine cs).trans h).ofInside

theorem trivia_skipBlockComment {s : Scanner} {cs ds : List Char} {atStart : Bool}
    (hr : s.cursor.rest = '/' :: '*' :: cs) (h : Trivia false s.skipBlockComment.cursor.rest ds) :
    Trivia atStart s.cursor.rest ds := by
  have hrest := rest_skipBlockComment s
  rw [hr] at hrest
  rw [hr]
  cases hlen : blockCommentLength? cs with
  | some n =>
      obtain ⟨body, heq, -, hin⟩ := blockCommentLength?_eq_some hlen
      rw [show (List.drop 2 ('/' :: '*' :: cs)) = cs from rfl, hlen] at hrest
      rw [hrest] at h
      rw [heq]
      exact .blockComment hin h
  | none =>
      rw [show (List.drop 2 ('/' :: '*' :: cs)) = cs from rfl, hlen] at hrest
      rw [hrest] at h
      cases h
      exact .openComment (blockCommentLength?_eq_none hlen)

theorem trivia_shebang {s : Scanner} {cs ds : List Char}
    (hr : s.cursor.rest = '#' :: '!' :: cs)
    (h : Trivia false (s.cursor.skipWhile fun c => !(c = '\n' || c = '\r')).rest ds) :
    Trivia true s.cursor.rest ds := by
  have hrest : (s.cursor.skipWhile fun c => !(c = '\n' || c = '\r')).rest =
      cs.dropWhile fun c => !(c = '\n' || c = '\r') := by
    rw [Cursor.rest_skipWhile, hr]
    rfl
  rw [hrest] at h
  rw [hr, ← @List.takeWhile_append_dropWhile Char (fun c => !(c = '\n' || c = '\r')) cs]
  refine .shebang ?_ ?_ h
  · intro c hc
    simpa using List.mem_takeWhile_imp hc
  · intro c hc
    simpa [or_iff_not_imp_left] using not_of_mem_head?_dropWhile hc

/-- One of the things that are passed over before a token. -/
inductive Round (s : Scanner) : Scanner → Prop where
  | lineBreak {c : Char} {cs : List Char} (hr : s.cursor.rest = c :: cs)
      (hc : Text.isLineBreak c = true) : Round s (s.advance 1).markLineBreak
  | blank {c : Char} {cs : List Char} (hr : s.cursor.rest = c :: cs)
      (hc : Text.isInlineBlank c = true) : Round s (s.advance 1)
  | shebang {cs : List Char} (hr : s.cursor.rest = '#' :: '!' :: cs) (hz : s.stop = 0) :
      Round s { s with cursor := s.cursor.skipWhile fun c => !(c = '\n' || c = '\r') }
  | lineComment {cs : List Char} (hr : s.cursor.rest = '/' :: '/' :: cs) : Round s s.skipLineComment
  | blockComment {cs : List Char} (hr : s.cursor.rest = '/' :: '*' :: cs) :
      Round s s.skipBlockComment

theorem skipTrivia_succ (fuel : Nat) (s : Scanner) :
    s.skipTrivia (fuel + 1) = s ∨
      ∃ t, Round s t ∧ s.skipTrivia (fuel + 1) = t.skipTrivia fuel := by
  rw [skipTrivia]
  split
  · exact .inl rfl
  · rename_i c rest hr
    split
    · exact .inr ⟨_, .lineBreak hr ‹_›, rfl⟩
    · split
      · exact .inr ⟨_, .blank hr ‹_›, rfl⟩
      · split
        · rename_i hc
          simp only [Bool.and_eq_true, decide_eq_true_eq] at hc
          obtain ⟨⟨rfl, hz⟩, hhead⟩ := hc
          obtain ⟨cs, rfl⟩ := List.head?_eq_some_iff.mp hhead
          exact .inr ⟨_, .shebang hr hz, rfl⟩
        · split
          · rename_i hc
            simp only [Bool.and_eq_true, decide_eq_true_eq] at hc
            obtain ⟨rfl, hhead⟩ := hc
            obtain ⟨cs, rfl⟩ := List.head?_eq_some_iff.mp hhead
            exact .inr ⟨_, .lineComment hr, rfl⟩
          · split
            · rename_i hc
              simp only [Bool.and_eq_true, decide_eq_true_eq] at hc
              obtain ⟨rfl, hhead⟩ := hc
              obtain ⟨cs, rfl⟩ := List.head?_eq_some_iff.mp hhead
              exact .inr ⟨_, .blockComment hr, rfl⟩
            · exact .inl rfl

namespace Round

variable {s t : Scanner}

theorem passes (h : Round s t) : Passes 0 s t := by
  cases h with
  | lineBreak => exact ((passes_advance s 1).mono (Nat.zero_le 1)).withFlags _
  | blank => exact (passes_advance s 1).mono (Nat.zero_le 1)
  | shebang => exact passes_skipWhile s _
  | lineComment => exact passes_skipLineComment s
  | blockComment => exact passes_skipBlockComment s

/-- Every round takes something of the text. -/
theorem shorter (h : Round s t) : t.cursor.rest.length < s.cursor.rest.length := by
  have hadvance {c : Char} {cs : List Char} (hr : s.cursor.rest = c :: cs) :
      (s.cursor.advance 1).rest.length < s.cursor.rest.length := by
    rw [Cursor.rest_advance, hr]
    exact Nat.lt_succ_self _
  cases h with
  | lineBreak hr => exact hadvance hr
  | blank hr => exact hadvance hr
  | shebang hr =>
      simp only [Cursor.rest_skipWhile, hr]
      exact length_dropWhile_lt _ (by decide)
  | lineComment hr =>
      rw [rest_skipLineComment, hr]
      exact length_dropWhile_lt _ (by decide)
  | blockComment hr =>
      rw [rest_skipBlockComment, hr]
      split <;> simp
      omega

theorem trivia (h : Round s t) {ds : List Char} (hrest : Trivia false t.cursor.rest ds) :
    Trivia (s.stop = 0) s.cursor.rest ds := by
  have hadvance {c : Char} {cs : List Char} (hr : s.cursor.rest = c :: cs) :
      (s.cursor.advance 1).rest = cs := by
    rw [Cursor.rest_advance, hr, List.drop_one, List.tail_cons]
  cases h with
  | lineBreak hr hc => exact hr ▸ .blank (.inl hc) (hadvance hr ▸ hrest)
  | blank hr hc => exact hr ▸ .blank (.inr hc) (hadvance hr ▸ hrest)
  | shebang hr hz =>
      rw [decide_eq_true hz]
      exact trivia_shebang hr hrest
  | lineComment hr => exact trivia_skipLineComment hr hrest
  | blockComment hr => exact trivia_skipBlockComment hr hrest

end Round

/-- What every round keeps is kept before a token. -/
theorem skipTrivia_induction {P : Scanner → Prop} (round : ∀ s t, Round s t → P s → P t)
    (fuel : Nat) {s : Scanner} (h : P s) : P (s.skipTrivia fuel) := by
  induction fuel generalizing s with
  | zero => exact h
  | succ fuel ih =>
      rcases skipTrivia_succ fuel s with heq | ⟨t, ht, heq⟩
      · rw [heq]
        exact h
      · rw [heq]
        exact ih (round s t ht h)

/-- What is passed over before a token is trivia. -/
theorem skipTrivia_spec (fuel : Nat) (s : Scanner) :
    Passes 0 s (s.skipTrivia fuel) ∧
      Trivia (s.stop = 0) s.cursor.rest (s.skipTrivia fuel).cursor.rest := by
  induction fuel generalizing s with
  | zero => exact ⟨Passes.refl s, .refl _ _⟩
  | succ fuel ih =>
      rcases skipTrivia_succ fuel s with heq | ⟨t, ht, heq⟩
      · rw [heq]
        exact ⟨Passes.refl s, .refl _ _⟩
      · obtain ⟨hp, htr⟩ := ih t
        -- Every round starts later than the one before, so only the first can find a shebang.
        have hstop : t.stop ≠ 0 := Nat.ne_zero_of_lt (ht.passes.stop_lt ht.shorter)
        rw [decide_eq_false hstop] at htr
        rw [heq]
        exact ⟨ht.passes.trans hp, ht.trivia htr⟩

end Scanner
end Erasure
