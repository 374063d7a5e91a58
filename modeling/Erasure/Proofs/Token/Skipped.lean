import Erasure.Proofs.Text.Lines
import Erasure.Proofs.Token.Place

/-!
The scanner passes over all trivia: where blanks and comments lead from one text to another, going
on to the next token leads the scanner there, and the comments are noted on the way.
-/

namespace Erasure

theorem Trivia.blanks {bs : List Char} (h : ∀ c ∈ bs, Text.isBlank c = true) (cs : List Char) :
    Trivia false (bs ++ cs) cs := by
  induction bs with
  | nil => exact .refl _ _
  | cons b bs ih =>
      obtain ⟨hb, hbs⟩ := List.forall_mem_cons.mp h
      exact .blank (Text.isLineBreak_or_isInlineBlank hb) (ih hbs)

theorem dropWhile_append_of_all {p : Char → Bool} {body cs : List Char}
    (hbody : ∀ c ∈ body, p c = true) (hend : ∀ c ∈ cs.head?, p c = false) :
    (body ++ cs).dropWhile p = cs := by
  rw [List.dropWhile_append_of_pos hbody]
  cases cs with
  | nil => rfl
  | cons c cs => exact List.dropWhile_cons_of_neg (by simpa using hend c rfl)

theorem blockCommentLength?_cons {c : Char} {cs : List Char}
    (h : ['*', '/'].isPrefixOf (c :: cs) = false) :
    blockCommentLength? (c :: cs) = (blockCommentLength? cs).map (· + 1) := by
  rw [blockCommentLength?.eq_3]
  rintro ds rfl rfl
  cases h

/-- A block comment ends with the first end that is found in it. -/
theorem blockCommentLength?_append {body : List Char} (cs : List Char)
    (h : Text.hasInfix ['*', '/'] (body ++ ['*']) = false) :
    blockCommentLength? (body ++ '*' :: '/' :: cs) = some (body.length + 2) := by
  induction body with
  | nil => rfl
  | cons c body ih =>
      rw [List.cons_append, Text.hasInfix, Bool.or_eq_false_iff] at h
      have hp : ['*', '/'].isPrefixOf (c :: (body ++ '*' :: '/' :: cs)) = false := by
        cases body with
        | nil => simp [List.isPrefixOf]
        | cons d ds => exact h.1
      rw [List.cons_append, blockCommentLength?_cons hp, ih h.2]
      rfl

theorem blockCommentLength?_of_hasInfix {cs : List Char}
    (h : Text.hasInfix ['*', '/'] cs = false) : blockCommentLength? cs = none := by
  cases hlen : blockCommentLength? cs with
  | none => rfl
  | some n =>
      obtain ⟨body, heq, -⟩ := blockCommentLength?_eq_some hlen
      have hin : ['*', '/'] <:+: cs := by
        rw [heq]
        exact ⟨body, cs.drop n, by simp⟩
      rw [(Text.hasInfix_iff _ _).mpr hin] at h
      cases h

namespace Scanner

/-- The comment noted last starts before the cursor. -/
def Fresh (s : Scanner) : Prop := ∀ c ∈ s.commentsRev.head?, c.start < s.stop

/-- Passing over trivia leads from `s` to `t`. -/
structure Skips (s t : Scanner) : Prop where
  passes : Passes 0 s t
  fresh : t.Fresh
  rounds : ∃ n, n + t.cursor.rest.length ≤ s.cursor.rest.length ∧
    ∀ fuel, skipTrivia (fuel + n) s = skipTrivia fuel t

namespace Skips

variable {s t u : Scanner}

theorem refl (h : s.Fresh) : Skips s s :=
  ⟨Passes.refl s, h, 0, (Nat.zero_add _).le, fun _ => rfl⟩

theorem trans (h : Skips s t) (h' : Skips t u) : Skips s u := by
  obtain ⟨m, hm, hround⟩ := h.rounds
  obtain ⟨n, hn, hround'⟩ := h'.rounds
  refine ⟨h.passes.trans h'.passes, h'.fresh, n + m, by omega, fun fuel => ?_⟩
  rw [← Nat.add_assoc, hround, hround']

end Skips

/-- One round takes something of the text. -/
theorem skips_round {s t : Scanner} (hp : Passes 0 s t)
    (hlt : t.cursor.rest.length < s.cursor.rest.length) (hf : t.Fresh)
    (hround : ∀ fuel, skipTrivia (fuel + 1) s = skipTrivia fuel t) : Skips s t :=
  ⟨hp, hf, 1, by omega, hround⟩

/-- A comment that starts behind all others is noted. -/
theorem commentsRev_noteComment {s : Scanner} {start : Cursor} (isBlock : Bool)
    (h : ∀ c ∈ s.commentsRev.head?, c.start < start.offset) :
    (s.noteComment start isBlock).commentsRev =
      ⟨start.offset, s.stop, isBlock, s.cursor.endsLine, start.startsLine⟩ :: s.commentsRev := by
  have hany : (s.commentsRev.head?.any fun c => c.start ≥ start.offset) = false := by
    cases hhead : s.commentsRev.head? with
    | none => rfl
    | some c => simpa using h c hhead
  rw [noteComment, hany]
  rfl

theorem fresh_noteComment {s : Scanner} {start : Cursor} (isBlock : Bool)
    (h : ∀ c ∈ s.commentsRev.head?, c.start < start.offset) (hlt : start.offset < s.stop) :
    (s.noteComment start isBlock).Fresh := by
  intro c hc
  rw [commentsRev_noteComment isBlock h, List.head?_cons, Option.mem_def, Option.some.injEq] at hc
  rw [stop, cursor_noteComment, ← hc]
  exact hlt

theorem fresh_of_passes {n : Nat} {s t : Scanner} (hp : Passes n s t) (h : s.Fresh)
    (hc : t.commentsRev = s.commentsRev) : t.Fresh := by
  intro c hhead
  rw [hc] at hhead
  exact Nat.lt_of_lt_of_le (h c hhead) hp.stop_le

/-- A line comment is passed over and noted. -/
theorem skips_skipLineComment {s : Scanner} {cs : List Char}
    (hr : s.cursor.rest = '/' :: '/' :: cs) (hf : s.Fresh) : Skips s s.skipLineComment := by
  have hlt : s.skipLineComment.cursor.rest.length < s.cursor.rest.length := by
    rw [rest_skipLineComment, hr]
    exact length_dropWhile_lt _ (by decide)
  have hp := passes_skipLineComment s
  refine skips_round hp hlt (fresh_noteComment _ hf ?_) fun fuel => ?_
  · have := hp.stop_lt hlt
    rwa [stop, stop, skipLineComment, cursor_noteComment] at this
  · rw [skipTrivia, hr]
    rfl

theorem exists_comment_skipLineComment {s : Scanner} (hf : s.Fresh) :
    ∃ c ∈ s.skipLineComment.commentsRev, c.isBlock = false ∧ c.start = s.stop ∧
      c.stop = s.skipLineComment.stop := by
  let t : Scanner := { s with cursor := s.cursor.skipWhile fun c => !Text.isLineBreak c }
  have hrev := commentsRev_noteComment (s := t) false hf
  refine ⟨_, hrev ▸ List.mem_cons_self, rfl, rfl, ?_⟩
  rw [stop, stop, skipLineComment, cursor_noteComment]

theorem skips_skipBlockComment {s : Scanner} {cs : List Char}
    (hr : s.cursor.rest = '/' :: '*' :: cs) (hf : s.Fresh) : Skips s s.skipBlockComment := by
  have hlt : s.skipBlockComment.cursor.rest.length < s.cursor.rest.length := by
    rw [rest_skipBlockComment, hr]
    split <;> simp
    omega
  have hp := passes_skipBlockComment s
  refine skips_round hp hlt ?_ fun fuel => ?_
  · obtain ⟨t, heq, -, hc⟩ := skipBlockComment_eq s
    have hstop := hp.stop_lt hlt
    rw [heq] at hstop ⊢
    rw [stop, stop, cursor_noteComment] at hstop
    exact fresh_noteComment _ (by rw [hc]; exact hf) hstop
  · rw [skipTrivia, hr]
    rfl

theorem skips_blank {s : Scanner} {c : Char} {cs : List Char} (hr : s.cursor.rest = c :: cs)
    (hc : Text.isLineBreak c = true ∨ Text.isInlineBlank c = true) (hf : s.Fresh) :
    ∃ t, Skips s t ∧ t.cursor.rest = cs := by
  have hp := (passes_advance s 1).mono (Nat.zero_le 1)
  have hrest : (s.advance 1).cursor.rest = cs := by
    rw [Scanner.advance, Cursor.rest_advance, hr, List.drop_one, List.tail_cons]
  have hlt : (s.advance 1).cursor.rest.length < s.cursor.rest.length := by
    rw [hrest, hr, List.length_cons]
    exact Nat.lt_succ_self _
  have hfresh : (s.advance 1).Fresh := fresh_of_passes hp hf rfl
  by_cases hl : Text.isLineBreak c = true
  · refine ⟨(s.advance 1).markLineBreak,
      skips_round (hp.withFlags _) hlt hfresh fun fuel => ?_, hrest⟩
    rw [skipTrivia, hr]
    simp only [hl, if_true]
  · refine ⟨s.advance 1, skips_round hp hlt hfresh fun fuel => ?_, hrest⟩
    rw [skipTrivia, hr]
    simp only [hl, hc.resolve_left hl, if_true]
    rfl

theorem skips_shebang {s : Scanner} {body cs : List Char}
    (hr : s.cursor.rest = '#' :: '!' :: (body ++ cs)) (hstart : s.stop = 0)
    (hbody : ∀ c ∈ body, c ≠ '\n' ∧ c ≠ '\r') (hend : ∀ c ∈ cs.head?, c = '\n' ∨ c = '\r')
    (hf : s.Fresh) : ∃ t, Skips s t ∧ t.cursor.rest = cs := by
  let t : Scanner := { s with cursor := s.cursor.skipWhile fun c => !(c = '\n' || c = '\r') }
  have hp : Passes 0 s t := passes_skipWhile s _
  have hrest : t.cursor.rest = cs := by
    rw [Cursor.rest_skipWhile, hr]
    show (body ++ cs).dropWhile _ = cs
    apply dropWhile_append_of_all
    · intro c hc
      simpa using hbody c hc
    · intro c hc
      simpa [or_iff_not_imp_left] using hend c hc
  have hlt : t.cursor.rest.length < s.cursor.rest.length := by
    rw [hrest, hr]
    simp only [List.length_cons, List.length_append]
    omega
  refine ⟨t, skips_round hp hlt (fresh_of_passes hp hf rfl) fun fuel => ?_, hrest⟩
  rw [skipTrivia, hr]
  simp only [hstart]
  rfl

/-- Wherever trivia leads, the scanner gets. -/
theorem exists_skips {atStart : Bool} {cs ds : List Char} (h : Trivia atStart cs ds) (s : Scanner)
    (hr : s.cursor.rest = cs) (hstart : atStart = true → s.stop = 0) (hf : s.Fresh) :
    ∃ t, Skips s t ∧ t.cursor.rest = ds := by
  induction h generalizing s with
  | refl => exact ⟨s, .refl hf, hr⟩
  | blank hc _ ih =>
      obtain ⟨t, ht, hrest⟩ := skips_blank hr hc hf
      obtain ⟨u, hu, hds⟩ := ih t hrest nofun ht.fresh
      exact ⟨u, ht.trans hu, hds⟩
  | shebang hbody hend _ ih =>
      obtain ⟨t, ht, hrest⟩ := skips_shebang hr (hstart rfl) hbody hend hf
      obtain ⟨u, hu, hds⟩ := ih t hrest nofun ht.fresh
      exact ⟨u, ht.trans hu, hds⟩
  | @lineComment _ body cs _ hbody hend _ ih =>
      have ht := skips_skipLineComment hr hf
      have hrest : s.skipLineComment.cursor.rest = cs := by
        rw [rest_skipLineComment, hr]
        show (body ++ cs).dropWhile _ = cs
        apply dropWhile_append_of_all
        · intro c hc
          simpa using hbody c hc
        · intro c hc
          simpa using hend c hc
      obtain ⟨u, hu, hds⟩ := ih _ hrest nofun ht.fresh
      exact ⟨u, ht.trans hu, hds⟩
  | @blockComment _ body cs _ hbody _ ih =>
      have ht := skips_skipBlockComment hr hf
      have hlen := blockCommentLength?_append cs hbody
      have hrest : s.skipBlockComment.cursor.rest = cs := by
        rw [rest_skipBlockComment, hr, List.drop_succ_cons, List.drop_succ_cons, List.drop_zero,
          hlen]
        simp
      obtain ⟨u, hu, hds⟩ := ih _ hrest nofun ht.fresh
      exact ⟨u, ht.trans hu, hds⟩
  | openComment hbody =>
      have ht := skips_skipBlockComment hr hf
      have hrest := rest_skipBlockComment s
      rw [hr, List.drop_succ_cons, List.drop_succ_cons, List.drop_zero,
        blockCommentLength?_of_hasInfix hbody] at hrest
      exact ⟨_, ht, hrest⟩

/-- The rounds before a token go on wherever trivia leads. -/
theorem Skips.beforeToken {s t : Scanner} (hs : s.cursor.Sound s.source)
    (h : Skips { s with fullStart := s.stop, flags := {}, value := "" } t) :
    Passes 0 t s.beforeToken := by
  obtain ⟨n, hn, hround⟩ := h.rounds
  have hsize := hs.offset_add
  have hlen := Text.length_le_byteSize s.cursor.rest
  have hle : n ≤ s.remaining + 1 := by
    unfold remaining stop
    dsimp only at hn
    omega
  have heq : s.beforeToken = skipTrivia (s.remaining + 1 - n) t := by
    rw [← hround, Nat.sub_add_cancel hle]
    rfl
  rw [heq]
  exact (skipTrivia_spec _ t).1

/-- The token comes behind all that is passed over, and comments noted there stay. -/
theorem Skips.scan {s t : Scanner} (hs : s.cursor.Sound s.source)
    (h : Skips { s with fullStart := s.stop, flags := {}, value := "" } t) :
    t.commentsRev <:+ s.scan.commentsRev ∧ t.stop ≤ s.scan.start := by
  have hp := h.beforeToken hs
  have hk := keeps_scan s
  refine ⟨hp.comments.trans hk.comments, ?_⟩
  have hstart : s.scan.tokenStart = s.beforeToken.cursor := hk.tokenStart
  rw [start, hstart]
  exact hp.stop_le

end Scanner
end Erasure
