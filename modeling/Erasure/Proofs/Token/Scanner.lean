import Erasure.Proofs.Token.Cursor
import Erasure.Token.Scanner

/-!
How far the scanner moves. Reading a token passes over characters of the text, at least one, and
changes neither the text nor the start of the token; errors are only added. The one exception is an
escape at the start of a name that stands for no start of a name: the error takes one more byte,
which can leave the text or end inside a character.
-/

namespace Erasure

namespace ScannedName

/-- An escape that stands for no start of a name, before the end of the text or a character of
several bytes. -/
def strayEscape (rest : List Char) : Bool :=
  match escape? rest with
  | some (x, n) => !Text.isIdentifierStart x && !(rest.drop n).head?.any Text.isAscii
  | none => false

theorem escape?_pos {rest : List Char} {x : Char} {n : Nat} (h : escape? rest = some (x, n)) :
    2 ≤ n := by
  unfold escape? at h
  split at h
  · split at h
    · simp only [Option.some.injEq, Prod.mk.injEq] at h
      omega
    · cases h
  · cases h

/-- A character of a name, as it is or as an escape. -/
inductive Takes (w : ScannedName) : ScannedName → Prop where
  | plain {c : Char} {cs : List Char} (hr : w.cursor.rest = c :: cs) (hc : c ≠ '\\')
      (hx : w.accepts c = true) :
      Takes w { w with cursor := w.cursor.next, chars := c :: w.chars }
  | escape {cs : List Char} {x : Char} {n : Nat} (hr : w.cursor.rest = '\\' :: cs)
      (hesc : escape? w.cursor.rest = some (x, n)) (hx : w.accepts x = true) :
      Takes w { w with cursor := w.cursor.advance n, chars := x :: w.chars, escaped := true }

/-- The end of a name: something else follows, an escape that cannot be read, or one that stands
for no character of a name. -/
inductive Halts (w : ScannedName) : ScannedName → Prop where
  | other (h : ∀ c ∈ w.cursor.rest.head?, w.accepts c = false) : Halts w w
  | unreadable {cs : List Char} (hr : w.cursor.rest = '\\' :: cs) : Halts w (w.fail w.cursor)
  | rejected {cs : List Char} {x : Char} {n : Nat} (hr : w.cursor.rest = '\\' :: cs)
      (hesc : escape? w.cursor.rest = some (x, n)) : Halts w (w.fail (w.cursor.advance n))

theorem read_succ (fuel : Nat) (w : ScannedName) :
    Halts w (read (fuel + 1) w) ∨ ∃ v, Takes w v ∧ read (fuel + 1) w = read fuel v := by
  rw [read]
  split
  · rename_i hr
    exact .inl (.other (by rw [hr]; exact nofun))
  · rename_i c cs hr
    split
    · rename_i hc
      subst hc
      split
      · exact .inl (.unreadable hr)
      · rename_i hesc
        dsimp only
        split
        · exact .inr ⟨_, .escape hr hesc ‹_›, rfl⟩
        · exact .inl (.rejected hr hesc)
    · split
      · exact .inr ⟨_, .plain hr ‹_› ‹_›, rfl⟩
      · rename_i hx
        refine .inl (.other fun d hd => ?_)
        rw [hr, List.head?_cons, Option.mem_some_iff] at hd
        rw [← hd]
        simpa using hx

/-- What holds at the start of a name and of every step holds at its end. -/
theorem read_induction {P : ScannedName → Prop} (takes : ∀ w v, Takes w v → P w → P v)
    (halts : ∀ w v, Halts w v → P w → P v) (fuel : Nat) {w : ScannedName} (h : P w) :
    P (read fuel w) := by
  induction fuel generalizing w with
  | zero => exact h
  | succ fuel ih =>
      rcases read_succ fuel w with hend | ⟨v, hv, heq⟩
      · exact halts w _ hend h
      · rw [heq]
        exact ih (takes w v hv h)

theorem cursor_fail {w : ScannedName} (h : w.chars ≠ []) (cursor : Cursor) :
    (w.fail cursor).cursor = cursor := by
  rw [fail]
  exact if_neg (by simpa using h)

/-- Once a name has a character, it ends between characters. -/
theorem read_of_chars (fuel : Nat) (w : ScannedName) (h : w.chars ≠ []) :
    (∃ n, (read fuel w).cursor = w.cursor.advance n) ∧ (read fuel w).chars ≠ [] := by
  refine read_induction (P := fun v => (∃ n, v.cursor = w.cursor.advance n) ∧ v.chars ≠ [])
    ?_ ?_ fuel ⟨⟨0, rfl⟩, h⟩
  · rintro u v hv ⟨⟨n, hn⟩, -⟩
    cases hv with
    | plain =>
        refine ⟨⟨n + 1, ?_⟩, List.cons_ne_nil _ _⟩
        rw [← Cursor.advance_advance, ← hn]
        rfl
    | @escape _ _ m =>
        refine ⟨⟨n + m, ?_⟩, List.cons_ne_nil _ _⟩
        rw [← Cursor.advance_advance, ← hn]
  · rintro u v hv ⟨⟨n, hn⟩, hne⟩
    cases hv with
    | other => exact ⟨⟨n, hn⟩, hne⟩
    | unreadable => exact ⟨⟨n, (cursor_fail hne _).trans hn⟩, hne⟩
    | @rejected _ _ m =>
        refine ⟨⟨n + m, (cursor_fail hne _).trans ?_⟩, hne⟩
        rw [← Cursor.advance_advance, ← hn]

/-- A name that starts with an escape or a character of a name passes over it. -/
theorem read_start (fuel : Nat) (c : Cursor) {x : Char} {xs : List Char} (h : c.rest = x :: xs)
    (hx : x = '\\' ∨ Text.isIdentifierStart x = true) (hs : strayEscape c.rest = false) :
    ∃ n, 1 ≤ n ∧ (read (fuel + 1) { cursor := c }).cursor = c.advance n := by
  have step (v : ScannedName) (m : Nat) (hm : 1 ≤ m) (hc : v.cursor = c.advance m)
      (hv : v.chars ≠ []) : ∃ n, 1 ≤ n ∧ (read fuel v).cursor = c.advance n := by
    obtain ⟨⟨n, hn⟩, -⟩ := read_of_chars fuel v hv
    exact ⟨m + n, by omega, by rw [hn, hc, Cursor.advance_advance]⟩
  unfold read
  simp only [h]
  split
  · rename_i hback
    subst hback
    split
    · -- The backslash itself is a single byte.
      refine ⟨1, le_rfl, ?_⟩
      have hb : c.rest.head?.any Text.isAscii = true := by rw [h]; rfl
      simp only [fail, List.isEmpty_nil, if_true, Cursor.nextByte_eq_advance hb]
    · rename_i y n hesc
      have hn := escape?_pos hesc
      split
      · exact step _ n (by omega) rfl (List.cons_ne_nil _ _)
      · rename_i hacc
        have hy : Text.isIdentifierStart y = false := by simpa [accepts] using hacc
        simp only [strayEscape, h, hesc, hy] at hs
        have hb : (c.advance n).rest.head?.any Text.isAscii = true := by
          simpa [Cursor.rest_advance, h] using hs
        refine ⟨n + 1, by omega, ?_⟩
        simp only [fail, List.isEmpty_nil, if_true, Cursor.nextByte_eq_advance hb,
          Cursor.advance_advance]
  · rename_i hback
    have hacc : Text.isIdentifierStart x = true := hx.resolve_left hback
    have : accepts { cursor := c } x = true := by simpa [accepts] using hacc
    rw [if_pos this]
    exact step _ 1 le_rfl rfl (List.cons_ne_nil _ _)

theorem cons_of_strayEscape {rest : List Char} (h : strayEscape rest = true) :
    ∃ xs, rest = '\\' :: xs := by
  unfold strayEscape at h
  split at h
  · rename_i hesc
    unfold escape? at hesc
    split at hesc
    · exact ⟨_, rfl⟩
    · cases hesc
  · cases h

/-- After a stray escape nothing can be read, and the name is empty. -/
theorem read_stray (fuel : Nat) (c : Cursor) (hs : strayEscape c.rest = true) :
    ∃ n, (c.advance n).rest.head?.any Text.isAscii = false ∧
      (read (fuel + 1) { cursor := c }).cursor =
        ⟨(c.advance n).offset + 1, (c.advance n).before, []⟩ ∧
      (read (fuel + 1) { cursor := c }).chars = [] := by
  obtain ⟨xs, h⟩ := cons_of_strayEscape hs
  unfold strayEscape at hs
  split at hs
  · rename_i y n hesc
    simp only [Bool.and_eq_true, Bool.not_eq_true'] at hs
    refine ⟨n, by rw [Cursor.rest_advance]; exact hs.2, ?_⟩
    have hacc : accepts { cursor := c } y = false := by simpa [accepts] using hs.1
    have hb : (c.advance n).rest.head?.any Text.isAscii = false := by
      rw [Cursor.rest_advance]; exact hs.2
    unfold read
    simp only [h, if_true]
    rw [h] at hesc
    simp only [hesc, hacc, fail, List.isEmpty_nil, if_true, Cursor.nextByte_of_not_ascii hb]
    exact ⟨rfl, rfl⟩
  · cases hs

end ScannedName

namespace Scanner

/-- `t` is reached from `s` inside one token: at least `n` characters are passed over, or all that
is left, and comments and errors are only added. -/
structure Passes (n : Nat) (s t : Scanner) : Prop where
  source : t.source = s.source
  fullStart : t.fullStart = s.fullStart
  tokenStart : t.tokenStart = s.tokenStart
  comments : s.commentsRev <:+ t.commentsRev
  errors : s.errorsRev <:+ t.errorsRev
  cursor : ∃ m, n ≤ m ∧ t.cursor = s.cursor.advance m

theorem Passes.refl (s : Scanner) : Passes 0 s s :=
  ⟨rfl, rfl, rfl, List.suffix_rfl, List.suffix_rfl, 0, le_rfl, rfl⟩

/-- Afterwards only the token, its flags or its value change. -/
theorem Passes.relabel {n : Nat} {s t u : Scanner} (h : Passes n s t)
    (hs : u.source = t.source) (hf : u.fullStart = t.fullStart)
    (ht : u.tokenStart = t.tokenStart) (hn : u.commentsRev = t.commentsRev)
    (he : u.errorsRev = t.errorsRev) (hc : u.cursor = t.cursor) : Passes n s u := by
  obtain ⟨m, hm, hcur⟩ := h.cursor
  exact ⟨hs.trans h.source, hf.trans h.fullStart, ht.trans h.tokenStart, hn ▸ h.comments,
    he ▸ h.errors, m, hm, hc.trans hcur⟩

theorem Passes.trans {m n : Nat} {s t u : Scanner} (h : Passes m s t) (h' : Passes n t u) :
    Passes (m + n) s u := by
  obtain ⟨i, hi, hc⟩ := h.cursor
  obtain ⟨j, hj, hc'⟩ := h'.cursor
  refine ⟨h'.source.trans h.source, h'.fullStart.trans h.fullStart,
    h'.tokenStart.trans h.tokenStart, h.comments.trans h'.comments, h.errors.trans h'.errors,
    i + j, by omega, ?_⟩
  rw [hc', hc, Cursor.advance_advance]

theorem Passes.mono {m n : Nat} {s t : Scanner} (h : Passes n s t) (hm : m ≤ n) : Passes m s t := by
  obtain ⟨i, hi, hc⟩ := h.cursor
  exact ⟨h.source, h.fullStart, h.tokenStart, h.comments, h.errors, i, hm.trans hi, hc⟩

theorem Passes.sound {n : Nat} {s t : Scanner} {source : String} (h : Passes n s t)
    (hs : s.cursor.Sound source) : t.cursor.Sound source := by
  obtain ⟨m, -, hc⟩ := h.cursor
  rw [hc]
  exact hs.advance m

theorem Passes.stop_le {n : Nat} {s t : Scanner} (h : Passes n s t) : s.stop ≤ t.stop := by
  obtain ⟨m, -, hc⟩ := h.cursor
  rw [stop, stop, hc, Cursor.offset_advance]
  exact Nat.le_add_right _ _

theorem Passes.stop_lt {n : Nat} {s t : Scanner} (h : Passes n s t)
    (hlt : t.cursor.rest.length < s.cursor.rest.length) : s.stop < t.stop := by
  obtain ⟨m, -, hc⟩ := h.cursor
  rw [hc] at hlt
  rw [stop, stop, hc]
  exact Cursor.offset_lt_advance hlt

theorem Passes.length_lt {s t : Scanner} (h : Passes 1 s t) (hr : s.cursor.rest ≠ []) :
    t.cursor.rest.length < s.cursor.rest.length := by
  obtain ⟨m, hm, hc⟩ := h.cursor
  have hpos := List.length_pos_iff.mpr hr
  rw [hc, Cursor.rest_advance, List.length_drop]
  omega

theorem passes_advance (s : Scanner) (n : Nat) : Passes n s (s.advance n) :=
  ⟨rfl, rfl, rfl, List.suffix_rfl, List.suffix_rfl, n, le_rfl, rfl⟩

/-- Where something can be read, the scanner stands at a place of its text. -/
def Placed (s : Scanner) : Prop := s.cursor.rest ≠ [] → s.cursor.Sound s.source

theorem Passes.placed {n : Nat} {s t : Scanner} (hp : Passes n s t) (h : s.Placed) : t.Placed := by
  intro hrest
  rw [hp.source]
  refine hp.sound (h fun hnil => hrest ?_)
  obtain ⟨n, -, hn⟩ := hp.cursor
  rw [hn, Cursor.rest_advance, hnil, List.drop_nil]

theorem Placed.length_le {s : Scanner} (h : s.Placed) : s.cursor.rest.length ≤ s.remaining := by
  by_cases hr : s.cursor.rest = []
  · rw [hr]
    exact Nat.zero_le _
  · have hsize := (h hr).offset_add
    have hlength := Text.length_le_byteSize s.cursor.rest
    rw [remaining, stop]
    omega

theorem passes_skipWhile (s : Scanner) (p : Char → Bool) :
    Passes 0 s { s with cursor := s.cursor.skipWhile p } :=
  ⟨rfl, rfl, rfl, List.suffix_rfl, List.suffix_rfl, _, Nat.zero_le _,
    Cursor.skipWhile_eq_advance p s.cursor⟩

theorem passes_error (s : Scanner) (m : Message) (start length : Nat) :
    Passes 0 s (s.error m start length) := by
  unfold error
  dsimp only
  split
  · exact Passes.refl s
  · exact ⟨rfl, rfl, rfl, List.suffix_rfl, List.suffix_cons _ _, 0, le_rfl, rfl⟩

theorem Passes.ite {n : Nat} {s t u : Scanner} (p : Prop) [Decidable p] (ht : Passes n s t)
    (hu : Passes n s u) : Passes n s (if p then t else u) := by
  split
  · exact ht
  · exact hu

theorem Passes.withFlags {n : Nat} {s t : Scanner} (h : Passes n s t) (flags : TokenFlags) :
    Passes n s { t with flags } :=
  h.relabel rfl rfl rfl rfl rfl rfl

theorem Passes.finish {n : Nat} {s t : Scanner} (h : Passes n s t) (k : TokenKind) :
    Passes n s (t.finish k) :=
  h.relabel rfl rfl rfl rfl rfl rfl

theorem Passes.finishCooked {n : Nat} {s t : Scanner} (h : Passes n s t) (k : TokenKind)
    (value : List Char) : Passes n s (t.finishCooked k value) :=
  h.relabel rfl rfl rfl rfl rfl rfl

theorem Passes.error {n : Nat} {s t : Scanner} (h : Passes n s t) (m : Message)
    (start length : Nat) : Passes n s (t.error m start length) :=
  h.trans (passes_error t m start length)

theorem Passes.unterminated {n : Nat} {s t : Scanner} (h : Passes n s t) (m : Message) :
    Passes n s (t.unterminated m) :=
  (h.error m t.stop 0).relabel rfl rfl rfl rfl rfl rfl

theorem Passes.advance {n : Nat} {s t : Scanner} (h : Passes n s t) (k : Nat) :
    Passes n s (t.advance k) :=
  (h.trans (passes_advance t k)).mono (Nat.le_add_right n k)

theorem digitRun_pos (isDigit : Char → Bool) (inside : Bool) {c : Char} (cs : List Char)
    (h : isDigit c = true) : 1 ≤ (digitRun isDigit inside (c :: cs)).1 := by
  simp only [digitRun, h, if_true]
  omega

theorem digitRun_none (isDigit : Char → Bool) {c : Char} (cs : List Char)
    (h : isDigit c = false) : digitRun isDigit false (c :: cs) = (0, false) := by
  simp [digitRun, h]

theorem passes_skipDigits (s : Scanner) (isDigit : Char → Bool) :
    Passes (digitRun isDigit false s.cursor.rest).1 s (s.skipDigits isDigit).1 := by
  have h := passes_advance s (digitRun isDigit false s.cursor.rest).1
  unfold skipDigits
  dsimp only
  split
  · exact h.relabel rfl rfl rfl rfl rfl rfl
  · exact h

/-- A digit to come is passed over. -/
theorem passes_digit (s : Scanner) {c : Char} {cs : List Char} (hr : s.cursor.rest = c :: cs)
    (hc : Text.isAsciiDigit c = true) : Passes 1 s (s.skipDigits Text.isAsciiDigit).1 := by
  have h := passes_skipDigits s Text.isAsciiDigit
  rw [hr] at h
  exact h.mono (digitRun_pos _ _ _ hc)

theorem Passes.skipDigits {n : Nat} {s t : Scanner} (h : Passes n s t) (isDigit : Char → Bool) :
    Passes n s (t.skipDigits isDigit).1 :=
  (h.trans (passes_skipDigits t isDigit)).mono (Nat.le_add_right _ _)

theorem Passes.requireDigits {n : Nat} {s t : Scanner} (h : Passes n s t)
    (isDigit : Char → Bool) (m : Message) : Passes n s (t.requireDigits isDigit m) := by
  unfold Scanner.requireDigits
  dsimp only
  split
  · exact h.skipDigits isDigit
  · exact (h.skipDigits isDigit).error _ _ _

theorem Passes.skipFraction {n : Nat} {s t : Scanner} (h : Passes n s t) :
    Passes n s t.skipFraction.1 := by
  unfold Scanner.skipFraction
  split
  · exact (h.advance 1).skipDigits _
  · exact h

theorem Passes.skipExponent {n : Nat} {s t : Scanner} (h : Passes n s t) :
    Passes n s t.skipExponent.1 := by
  unfold Scanner.skipExponent
  split
  · split
    · dsimp only
      apply Passes.requireDigits
      split
      · exact ((h.advance 1).withFlags _).advance 1
      · exact (h.advance 1).withFlags _
    · exact h
  · exact h

theorem passes_skipNumber_digit (s : Scanner) {c : Char} {cs : List Char}
    (hr : s.cursor.rest = c :: cs) (hc : Text.isAsciiDigit c = true) :
    Passes 1 s s.skipNumber.1 := by
  have based (t : Scanner) (ht : Passes 2 s t) (isDigit : Char → Bool) (m : Message) :
      Passes 1 s (t.requireDigits isDigit m) :=
    (ht.requireDigits isDigit m).mono (by decide)
  have two := passes_advance s 2
  unfold skipNumber
  dsimp only
  split
  · exact based _ (two.withFlags _) _ _
  · exact based _ (two.withFlags _) _ _
  · exact based _ (two.withFlags _) _ _
  · exact based _ (two.withFlags _) _ _
  · exact based _ (two.withFlags _) _ _
  · exact based _ (two.withFlags _) _ _
  · rw [apply_ite Prod.fst]
    apply Passes.ite
    · have h := (Passes.refl s).withFlags { s.flags with octal := true }
      exact h.trans (passes_digit { s with flags := { s.flags with octal := true } } hr hc)
    · exact (passes_digit s hr hc).skipFraction.skipExponent

/-- Without digits before it the point starts the fraction. -/
theorem passes_skipNumber_point (s : Scanner) {cs : List Char} (hr : s.cursor.rest = '.' :: cs) :
    Passes 1 s s.skipNumber.1 := by
  have hnone : (s.skipDigits Text.isAsciiDigit).1 = s := by
    have hd : digitRun Text.isAsciiDigit false ('.' :: cs) = (0, false) :=
      digitRun_none _ _ (by decide)
    simp only [skipDigits, hr, hd]
    rfl
  have hfraction : Passes 1 s s.skipFraction.1 := by
    simp only [skipFraction, hr]
    exact (passes_advance s 1).skipDigits _
  unfold skipNumber
  simp only [hr, hnone]
  exact hfraction.skipExponent

theorem passes_scanNumber (s : Scanner) {c : Char} {cs : List Char}
    (hr : s.cursor.rest = c :: cs) (hc : Text.isAsciiDigit c = true ∨ c = '.') :
    Passes 1 s s.scanNumber := by
  have h : Passes 1 s s.skipNumber.1 := by
    rcases hc with hc | rfl
    · exact passes_skipNumber_digit s hr hc
    · exact passes_skipNumber_point s hr
  have big (p : Prop) [Decidable p] :
      Passes 1 s (if p then s.skipNumber.1.advance 1 else s.skipNumber.1) :=
    Passes.ite p (h.advance 1) h
  exact (Passes.ite _ ((big _).error _ _ _) (big _)).finish _

theorem passes_readEscape (s : Scanner) (value : List Char) :
    Passes 1 s (s.readEscape value).1 := by
  have invalid (t : Scanner) (ht : Passes 1 s t) (start : Cursor) (length : Nat) :
      Passes 1 s (t.invalidEscape start length value).1 :=
    (ht.withFlags _).error _ _ _
  have two : Passes 1 s (s.advance 2) := (passes_advance s 2).mono (by decide)
  unfold readEscape
  dsimp only
  split
  · split
    case h_7 =>
      split
      · exact two.advance 2
      · exact invalid _ two _ _
    case h_8 =>
      split
      · exact two.advance _
      · exact invalid _ (two.advance _) _ _
    case h_9 => split <;> [exact two.advance 1; exact two]
    all_goals exact two
  · exact passes_advance s 1

theorem Passes.readEscape {n : Nat} {s t : Scanner} (h : Passes n s t) (value : List Char) :
    Passes n s (t.readEscape value).1 :=
  (h.trans (passes_readEscape t value)).mono (Nat.le_add_right n 1)

theorem Passes.readString {n : Nat} {s t : Scanner} (h : Passes n s t) (quote : Char)
    (fuel : Nat) (value : List Char) : Passes n s (t.readString quote fuel value) := by
  induction fuel generalizing t value with
  | zero => exact h.finishCooked _ _
  | succ fuel ih =>
      unfold Scanner.readString
      split
      · exact (h.unterminated _).finishCooked _ _
      · split
        · exact (h.advance 1).finishCooked _ _
        · split
          · exact ih (h.readEscape value) _
          · split
            · exact (h.unterminated _).finishCooked _ _
            · exact ih (h.advance 1) _

theorem Passes.readTemplate {n : Nat} {s t : Scanner} (h : Passes n s t)
    (whole part : TokenKind) (fuel : Nat) (value : List Char) :
    Passes n s (t.readTemplate whole part fuel value) := by
  induction fuel generalizing t value with
  | zero => exact h.finishCooked _ _
  | succ fuel ih =>
      unfold Scanner.readTemplate
      split
      · exact (h.unterminated _).finishCooked _ _
      · split
        · exact (h.advance 1).finishCooked _ _
        · split
          · exact (h.advance 2).finishCooked _ _
          · split
            · exact ih (h.readEscape value) _
            · split
              · exact ih (h.advance _) _
              · exact ih (h.advance 1) _

/-- The text at the start of a token after which nothing can be read: a stray escape, possibly
behind the sign of a private name. -/
def breaksOff : List Char → Bool
  | '#' :: rest => ScannedName.strayEscape rest
  | rest => ScannedName.strayEscape rest

/-- What follows a stray escape at the cursor is lost: the scanner stands one byte after a place at
which the text ends or a character of several bytes starts. -/
structure Loses (s t : Scanner) : Prop where
  source : t.source = s.source
  fullStart : t.fullStart = s.fullStart
  tokenStart : t.tokenStart = s.tokenStart
  comments : s.commentsRev <:+ t.commentsRev
  errors : s.errorsRev <:+ t.errorsRev
  rest : t.cursor.rest = []
  offset : ∃ n, (s.cursor.advance n).rest.head?.any Text.isAscii = false ∧
    t.stop = (s.cursor.advance n).offset + 1

theorem Loses.relabel {s t u : Scanner} (h : Loses s t) (hs : u.source = t.source)
    (hf : u.fullStart = t.fullStart) (ht : u.tokenStart = t.tokenStart)
    (hn : u.commentsRev = t.commentsRev) (he : u.errorsRev = t.errorsRev)
    (hc : u.cursor = t.cursor) : Loses s u :=
  ⟨hs.trans h.source, hf.trans h.fullStart, ht.trans h.tokenStart, hn ▸ h.comments,
    he ▸ h.errors, by rw [hc]; exact h.rest, by simp only [stop, hc]; exact h.offset⟩

theorem Loses.error {s t : Scanner} (h : Loses s t) (m : Message) (start length : Nat) :
    Loses s (t.error m start length) := by
  have hp := passes_error t m start length
  have hc : (t.error m start length).cursor = t.cursor := by
    unfold Scanner.error
    dsimp only
    split <;> rfl
  exact ⟨hp.source.trans h.source, hp.fullStart.trans h.fullStart,
    hp.tokenStart.trans h.tokenStart, h.comments.trans hp.comments, h.errors.trans hp.errors,
    by rw [hc]; exact h.rest, by simp only [stop, hc]; exact h.offset⟩

theorem Loses.of_advance {s t : Scanner} {n : Nat} (h : Loses (s.advance n) t) : Loses s t := by
  obtain ⟨m, hm, hoff⟩ := h.offset
  have hadv : (s.advance n).cursor.advance m = s.cursor.advance (n + m) :=
    Cursor.advance_advance s.cursor n m
  rw [hadv] at hm hoff
  exact ⟨h.source, h.fullStart, h.tokenStart, h.comments, h.errors, h.rest, n + m, hm, hoff⟩

theorem passes_readName (s : Scanner) {c : Char} {cs : List Char} (hr : s.cursor.rest = c :: cs)
    (hc : c = '\\' ∨ Text.isIdentifierStart c = true)
    (hs : ScannedName.strayEscape s.cursor.rest = false) : Passes 1 s s.readName.1 := by
  obtain ⟨n, hn, hcur⟩ := ScannedName.read_start s.remaining s.cursor hr hc hs
  have h : Passes 1 s
      { s with cursor := (ScannedName.read (s.remaining + 1) { cursor := s.cursor }).cursor } :=
    ⟨rfl, rfl, rfl, List.suffix_rfl, List.suffix_rfl, n, hn, hcur⟩
  unfold readName
  dsimp only
  split
  · exact h.error _ _ _
  · exact h

theorem loses_readName (s : Scanner) (hs : ScannedName.strayEscape s.cursor.rest = true) :
    Loses s s.readName.1 ∧ s.readName.2.chars = [] := by
  obtain ⟨n, hn, hcur, hchars⟩ := ScannedName.read_stray s.remaining s.cursor hs
  have h : Loses s
      { s with cursor := (ScannedName.read (s.remaining + 1) { cursor := s.cursor }).cursor } :=
    ⟨rfl, rfl, rfl, List.suffix_rfl, List.suffix_rfl, by simp only [hcur], n, hn,
      by simp only [stop, hcur]⟩
  unfold readName
  dsimp only
  split
  · exact ⟨h.error _ _ _, hchars⟩
  · exact ⟨h, hchars⟩

/-- What is done with a name that was read changes only the token. -/
theorem scanName_frame (s : Scanner) :
    s.scanName.source = s.readName.1.source ∧ s.scanName.fullStart = s.readName.1.fullStart ∧
      s.scanName.tokenStart = s.readName.1.tokenStart ∧
      s.scanName.commentsRev = s.readName.1.commentsRev ∧
      s.scanName.errorsRev = s.readName.1.errorsRev ∧
      s.scanName.cursor = s.readName.1.cursor := by
  unfold scanName
  dsimp only
  split
  · exact ⟨rfl, rfl, rfl, rfl, rfl, rfl⟩
  · split <;> exact ⟨rfl, rfl, rfl, rfl, rfl, rfl⟩

theorem passes_scanName (s : Scanner) {c : Char} {cs : List Char} (hr : s.cursor.rest = c :: cs)
    (hc : c = '\\' ∨ Text.isIdentifierStart c = true)
    (hs : ScannedName.strayEscape s.cursor.rest = false) : Passes 1 s s.scanName := by
  obtain ⟨h₁, h₂, h₃, h₄, h₅, h₆⟩ := scanName_frame s
  exact (passes_readName s hr hc hs).relabel h₁ h₂ h₃ h₄ h₅ h₆

theorem loses_scanName (s : Scanner) (hs : ScannedName.strayEscape s.cursor.rest = true) :
    Loses s s.scanName ∧ s.scanName.token = .unknown := by
  obtain ⟨h₁, h₂, h₃, h₄, h₅, h₆⟩ := scanName_frame s
  obtain ⟨h, hchars⟩ := loses_readName s hs
  refine ⟨h.relabel h₁ h₂ h₃ h₄ h₅ h₆, ?_⟩
  unfold scanName
  simp only [hchars, List.isEmpty_nil, if_true]
  rfl

theorem passes_scanPrivateName (s : Scanner) {cs : List Char} (hr : s.cursor.rest = '#' :: cs)
    (hs : ScannedName.strayEscape cs = false) : Passes 1 s s.scanPrivateName := by
  have hrest : (s.advance 1).cursor.rest = cs := by
    simp only [Scanner.advance, Cursor.rest_advance, hr, List.drop_one, List.tail_cons]
  unfold scanPrivateName
  dsimp only
  split
  · rename_i hstart
    cases cs with
    | nil => rw [hr] at hstart; exact absurd hstart (by decide)
    | cons c cs =>
        have hc : c = '\\' ∨ Text.isIdentifierStart c = true := by
          rw [hr] at hstart
          simpa [or_comm] using hstart
        have h : Passes 1 s (s.advance 1).readName.1 :=
          ((passes_advance s 1).trans (passes_readName _ hrest hc (by rw [hrest]; exact hs))).mono
            (by decide)
        split
        · exact h.finish _
        · split
          · exact h.relabel rfl rfl rfl rfl rfl rfl
          · exact h.finish _
  · exact (((passes_error s _ _ _).trans (passes_advance _ 1)).finish _)

theorem loses_scanPrivateName (s : Scanner) {cs : List Char} (hr : s.cursor.rest = '#' :: cs)
    (hs : ScannedName.strayEscape cs = true) :
    Loses s s.scanPrivateName ∧ s.scanPrivateName.token = .unknown := by
  have hrest : (s.advance 1).cursor.rest = cs := by
    simp only [Scanner.advance, Cursor.rest_advance, hr, List.drop_one, List.tail_cons]
  obtain ⟨h, hchars⟩ := loses_readName (s.advance 1) (by rw [hrest]; exact hs)
  have hstart : ((s.cursor.rest[1]?).any fun c => Text.isIdentifierStart c || c = '\\') = true := by
    obtain ⟨ds, rfl⟩ := ScannedName.cons_of_strayEscape hs
    rw [hr]
    rfl
  unfold scanPrivateName
  dsimp only
  rw [if_pos hstart]
  simp only [hchars, List.isEmpty_nil, if_true]
  exact ⟨h.of_advance.relabel rfl rfl rfl rfl rfl rfl, rfl⟩

theorem punctuator?_pos {rest : List Char} {kind : TokenKind} {n : Nat}
    (h : TokenKind.punctuator? rest = some (kind, n)) : 1 ≤ n ∧ kind ≠ .endOfFile := by
  have table : ∀ p ∈ TokenKind.scannedPunctuators, 1 ≤ p.1.length ∧ p.2 ≠ .endOfFile := by
    decide
  unfold TokenKind.punctuator? at h
  obtain ⟨p, hp, heq⟩ := Option.map_eq_some_iff.mp h
  cases heq
  exact table p (List.mem_of_find?_eq_some hp)

/-- A token passes over at least one character, unless the text breaks off. -/
theorem passes_scanToken (s : Scanner) {c : Char} {cs : List Char} (hr : s.cursor.rest = c :: cs)
    (hb : breaksOff s.cursor.rest = false) : Passes 1 s (s.scanToken c) := by
  unfold scanToken
  split
  · exact (passes_advance s 1).readString _ _ _
  · split
    · exact (passes_advance s 1).readTemplate _ _ _ _
    · split
      · rename_i hnum
        refine passes_scanNumber s hr ?_
        simp only [Bool.or_eq_true, Bool.and_eq_true, decide_eq_true_eq] at hnum
        exact hnum.imp_right And.left
      · split
        · rename_i hhash
          subst hhash
          refine passes_scanPrivateName s hr ?_
          rw [hr] at hb
          exact hb
        · split
          · rename_i hhash hname
            refine passes_scanName s hr (by simpa using hname) ?_
            rw [hr] at hb ⊢
            unfold breaksOff at hb
            split at hb
            · rename_i heq
              cases heq
              exact absurd rfl hhash
            · exact hb
          · split
            · rename_i hp
              exact ((passes_advance s _).mono (punctuator?_pos hp).1).finish _
            · exact ((passes_error s _ _ _).trans (passes_advance _ 1)).finish _

theorem loses_scanToken (s : Scanner) {c : Char} {cs : List Char} (hr : s.cursor.rest = c :: cs)
    (hb : breaksOff s.cursor.rest = true) :
    Loses s (s.scanToken c) ∧ (s.scanToken c).token = .unknown := by
  rw [hr] at hb
  unfold breaksOff at hb
  split at hb
  · rename_i heq
    cases heq
    exact loses_scanPrivateName s hr hb
  · obtain ⟨ds, heq⟩ := ScannedName.cons_of_strayEscape hb
    cases heq
    exact loses_scanName s (by rw [hr]; exact hb)

theorem token_readString (s : Scanner) (quote : Char) (fuel : Nat) (value : List Char) :
    (s.readString quote fuel value).token = .stringLiteral := by
  induction fuel generalizing s value with
  | zero => rfl
  | succ fuel ih =>
      unfold readString
      split
      · rfl
      · split
        · rfl
        · split
          · exact ih _ _
          · split
            · rfl
            · exact ih _ _

theorem token_readTemplate (s : Scanner) (whole part : TokenKind) (fuel : Nat)
    (value : List Char) :
    (s.readTemplate whole part fuel value).token = whole ∨
      (s.readTemplate whole part fuel value).token = part := by
  induction fuel generalizing s value with
  | zero => exact .inl rfl
  | succ fuel ih =>
      unfold readTemplate
      split
      · exact .inl rfl
      · split
        · exact .inl rfl
        · split
          · exact .inr rfl
          · split
            · exact ih _ _
            · split
              · exact ih _ _
              · exact ih _ _

theorem ofKeyword?_isKeyword {text : String} {kind : TokenKind}
    (h : TokenKind.ofKeyword? text = some kind) : kind.isKeyword = true := by
  have table : ∀ p ∈ TokenKind.keywords, p.2.isKeyword = true := by decide
  unfold TokenKind.ofKeyword? at h
  obtain ⟨l₁, l₂, heq, -⟩ := List.lookup_eq_some_iff.mp h
  exact table (text, kind) (by rw [heq]; simp)

theorem token_scanName (s : Scanner) :
    s.scanName.token = .unknown ∨ s.scanName.token = .identifier ∨
      s.scanName.token.isKeyword = true := by
  unfold scanName
  dsimp only
  split
  · exact .inl rfl
  · split
    · exact .inr (.inl rfl)
    · simp only [finish]
      cases hk : TokenKind.ofKeyword? s.readName.1.text with
      | none => exact .inr (.inl rfl)
      | some kind => exact .inr (.inr (ofKeyword?_isKeyword hk))

theorem token_scanPrivateName (s : Scanner) :
    s.scanPrivateName.token = .unknown ∨ s.scanPrivateName.token = .privateIdentifier := by
  unfold scanPrivateName
  dsimp only
  split
  · split
    · exact .inl rfl
    · split <;> exact .inr rfl
  · exact .inl rfl

/-- Only the end of the text is scanned as the end of the file. -/
theorem token_scanToken_ne (s : Scanner) (c : Char) : (s.scanToken c).token ≠ .endOfFile := by
  unfold scanToken
  split
  · rw [scanString, token_readString]; decide
  · split
    · rcases token_readTemplate (s.advance 1) .templateLiteral .templateHead (s.remaining + 1) []
        with h | h <;> rw [h] <;> decide
    · split
      · simp only [scanNumber, finish]
        split <;> decide
      · split
        · rcases token_scanPrivateName s with h | h <;> rw [h] <;> decide
        · split
          · rcases token_scanName s with h | h | h
            · rw [h]; decide
            · rw [h]; decide
            · intro heq
              rw [heq] at h
              exact absurd h (by decide)
          · split
            · rename_i hp
              exact (punctuator?_pos hp).2
            · exact nofun

end Scanner
end Erasure
