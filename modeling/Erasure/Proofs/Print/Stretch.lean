import Erasure.Print.Trivia
import Erasure.Proofs.Token.Cursor
import Mathlib.Data.List.TakeDrop

/-!
Stretches of output. A step of printing adds text at the end: code, and comments that it passes
over. A comment up to the end of a line is followed by a line break. The steps on comments add
nothing but comments and blanks, and nothing at all if none of the comments is to stay.
-/

namespace Erasure

namespace Text

theorem takeBytes_append (cs ds : List Char) : takeBytes (byteSize cs) (cs ++ ds) = cs := by
  induction cs with
  | nil => cases ds with
    | nil => rfl
    | cons d ds => simp [takeBytes, Nat.not_le.mpr d.utf8Size_pos]
  | cons c cs ih =>
      rw [byteSize_cons, List.cons_append, takeBytes, if_pos (Nat.le_add_right _ _),
        Nat.add_sub_cancel_left, ih]

theorem pushn_eq_append (s : String) (c : Char) (n : Nat) :
    s.pushn c n = s ++ "".pushn c n := by
  induction n with
  | zero => simp [String.pushn_eq_repeat_push, Nat.repeat]
  | succ n ih =>
      simp only [String.pushn_eq_repeat_push, Nat.repeat] at ih ⊢
      rw [ih, String.push_eq_append, String.push_eq_append, String.append_assoc]

/-- The characters of a text other than spaces and line feeds. -/
def dense (s : String) : List Char := s.toList.filter fun c => c ≠ ' ' && c ≠ '\n'

theorem dense_append (s t : String) : dense (s ++ t) = dense s ++ dense t := by
  simp [dense]

theorem dense_spaces (n : Nat) : dense ("".pushn ' ' n) = [] := by
  induction n with
  | zero => rfl
  | succ n ih =>
      simp only [String.pushn_eq_repeat_push, Nat.repeat] at ih ⊢
      rw [String.push_eq_append, dense_append, ih]
      rfl

end Text

namespace Writer

variable {w w' : Writer}

/-- The blanks that are written before the next text. -/
def margin (w : Writer) : String := if w.atLineStart then w.indentation else ""

theorem dense_margin (w : Writer) : Text.dense w.margin = [] := by
  unfold margin
  split
  · exact Text.dense_spaces _
  · rfl

theorem write_empty (w : Writer) : w.write "" = w := rfl

theorem write_eq (w : Writer) {text : String} (h : text ≠ "") :
    w.write text =
      { w with output := w.output ++ (w.margin ++ text), atLineStart := false } := by
  have hempty : text.isEmpty = false := by simpa using h
  unfold write margin indentation
  rw [hempty, if_neg Bool.false_ne_true]
  split
  · rw [Text.pushn_eq_append, String.append_assoc]
  · rename_i hstart
    simp [hstart]

theorem line_of_started (h : w.atLineStart = false) :
    w.line = { w with output := w.output ++ "\n", atLineStart := true } := by
  rw [line, h, if_neg Bool.false_ne_true, String.push_eq_append]
  rfl

theorem line_of_ended (h : w.atLineStart = true) : w.line = w := by
  rw [line, if_pos h]

/-- Going back to a mark undoes all that was written since. -/
theorem rewind_mark {text : String} (houtput : w'.output = w.output ++ text)
    (hlevel : w'.indentLevel = w.indentLevel) : w'.rewind w.mark = w := by
  have htake : Text.takeBytes w.length (w.output ++ text).toList = w.output.toList := by
    rw [String.toList_append, length, ← Text.byteSize_toList, Text.takeBytes_append]
  unfold rewind
  split
  · simp only [mark, houtput, hlevel, htake, String.ofList_toList]
  · rename_i hlength
    simp only [mark, length, houtput, String.utf8ByteSize_append, Nat.not_lt] at hlength
    have hempty : text = "" := by
      rw [← String.utf8ByteSize_eq_zero_iff]
      omega
    rw [hempty, String.append_empty] at houtput
    simp only [mark, houtput, hlevel]

end Writer

/-- A piece of output: a comment of the source as it is printed, or anything else. -/
inductive Piece where
  | code (text : String)
  | comment (c : Comment) (text : String)

namespace Piece

/-- The text that pieces make up. -/
def textOf : List Piece → String
  | [] => ""
  | code text :: ps | comment _ text :: ps => text ++ textOf ps

/-- What pieces make up without the comments. -/
def codeOf : List Piece → String
  | [] => ""
  | code text :: ps => text ++ codeOf ps
  | comment _ _ :: ps => codeOf ps

def commentsOf : List Piece → List Comment
  | [] => []
  | code _ :: ps => commentsOf ps
  | comment c _ :: ps => c :: commentsOf ps

/-- A line break follows each comment that runs up to the end of its line. -/
def LinesEnd : List Piece → Prop
  | [] => True
  | code _ :: ps => LinesEnd ps
  | comment c _ :: ps => (c.isBlock = false → ps.head? = some (code "\n")) ∧ LinesEnd ps

theorem textOf_append (ps qs : List Piece) : textOf (ps ++ qs) = textOf ps ++ textOf qs := by
  induction ps with
  | nil => simp [textOf]
  | cons p ps ih => cases p <;> simp [textOf, ih, String.append_assoc]

theorem codeOf_append (ps qs : List Piece) : codeOf (ps ++ qs) = codeOf ps ++ codeOf qs := by
  induction ps with
  | nil => simp [codeOf]
  | cons p ps ih => cases p <;> simp [codeOf, ih, String.append_assoc]

theorem commentsOf_append (ps qs : List Piece) :
    commentsOf (ps ++ qs) = commentsOf ps ++ commentsOf qs := by
  induction ps with
  | nil => rfl
  | cons p ps ih => cases p <;> simp [commentsOf, ih]

theorem LinesEnd.append {ps qs : List Piece} (hps : LinesEnd ps) (hqs : LinesEnd qs) :
    LinesEnd (ps ++ qs) := by
  induction ps with
  | nil => exact hqs
  | cons p ps ih =>
      cases p with
      | code text => exact ih hps
      | comment c text =>
          refine ⟨fun hc => ?_, ih hps.2⟩
          have hhead := hps.1 hc
          cases ps with
          | nil => cases hhead
          | cons p ps => exact hhead

end Piece

namespace SourceFile

/-- Whether a comment stays: it is no directive, and on demand only pinned comments stay. -/
def keeps (f : SourceFile) (o : Options) (c : Comment) : Bool :=
  !f.isDirectivePosition c.start && (!o.removeComments || c.isPinned f.text)

/-- The text with which a comment is printed on a line with some indentation. -/
def commentText (f : SourceFile) (c : Comment) (indentation : String) : String :=
  if c.isBlock && (c.text f.text).toList.contains '\n' then
    Comment.reindent (c.text f.text) (f.columnOf c.start) indentation
  else String.ofList (Text.dropEndWhile Text.isBlank (c.text f.text).toList)

end SourceFile

/-- What is added to an output while some comments are passed over. -/
structure Stretch (j : PrintJob) (passed : List Comment) (w w' : Writer) (ps : List Piece) :
    Prop where
  output : w'.output = w.output ++ Piece.textOf ps
  indentLevel : w'.indentLevel = w.indentLevel
  comments : (Piece.commentsOf ps).Sublist passed
  kept : ∀ c ∈ Piece.commentsOf ps, j.file.keeps j.options c = true
  texts : ∀ c text, .comment c text ∈ ps → ∃ indentation, text = j.file.commentText c indentation
  linesEnd : Piece.LinesEnd ps

/-- A stretch of comments and blanks. If no comment is to stay, it is empty. -/
structure Annotation (j : PrintJob) (passed : List Comment) (w w' : Writer) (ps : List Piece) :
    Prop extends Stretch j passed w w' ps where
  blank : Text.dense (Piece.codeOf ps) = []
  silent : (∀ c ∈ passed, j.file.keeps j.options c = false) → w' = w

variable {j : PrintJob} {passed passed' : List Comment} {w w' w'' : Writer} {ps qs : List Piece}

namespace Stretch

theorem refl (w : Writer) : Stretch j passed w w [] where
  output := by simp [Piece.textOf]
  indentLevel := rfl
  comments := List.nil_sublist _
  kept := List.forall_mem_nil _
  texts _ _ h := nomatch h
  linesEnd := trivial

theorem trans (h : Stretch j passed w w' ps) (h' : Stretch j passed' w' w'' qs) :
    Stretch j (passed ++ passed') w w'' (ps ++ qs) where
  output := by rw [h'.output, h.output, Piece.textOf_append, String.append_assoc]
  indentLevel := h'.indentLevel.trans h.indentLevel
  comments := by
    rw [Piece.commentsOf_append]
    exact h.comments.append h'.comments
  kept := by
    rw [Piece.commentsOf_append]
    exact List.forall_mem_append.mpr ⟨h.kept, h'.kept⟩
  texts c text hc := (List.mem_append.mp hc).elim (h.texts c text) (h'.texts c text)
  linesEnd := h.linesEnd.append h'.linesEnd

theorem mono (h : Stretch j passed w w' ps) (hpassed : passed.Sublist passed') :
    Stretch j passed' w w' ps :=
  { h with comments := h.comments.trans hpassed }

/-- Text that is no comment. -/
theorem code {text : String} (houtput : w'.output = w.output ++ text)
    (hlevel : w'.indentLevel = w.indentLevel) : Stretch j passed w w' [.code text] where
  output := by simp [Piece.textOf, houtput]
  indentLevel := hlevel
  comments := List.nil_sublist _
  kept := List.forall_mem_nil _
  texts _ _ h := by simp at h
  linesEnd := trivial

theorem write (w : Writer) (text : String) :
    ∃ ps, Stretch j [] w (w.write text) ps ∧ Text.dense (Piece.codeOf ps) = Text.dense text := by
  by_cases hempty : text = ""
  · subst hempty
    exact ⟨[], refl w, rfl⟩
  · refine ⟨[.code (w.margin ++ text)], code ?_ ?_, ?_⟩
    · rw [w.write_eq hempty]
    · rw [w.write_eq hempty]
    · simp [Piece.codeOf, Text.dense_append, w.dense_margin]

theorem line (w : Writer) :
    ∃ ps, Stretch j [] w w.line ps ∧ Text.dense (Piece.codeOf ps) = [] := by
  cases hstart : w.atLineStart with
  | true => exact ⟨[], by rw [w.line_of_ended hstart]; exact refl w, rfl⟩
  | false =>
      refine ⟨[.code "\n"], code ?_ ?_, rfl⟩
      · rw [w.line_of_started hstart]
      · rw [w.line_of_started hstart]

/-- A comment in a block, which may be followed by anything. -/
theorem block {c : Comment} (hkept : j.file.keeps j.options c = true) (hblock : c.isBlock = true)
    (w : Writer) : ∃ ps, Stretch j [c] w (w.write (j.file.commentText c w.indentation)) ps ∧
      Text.dense (Piece.codeOf ps) = [] := by
  by_cases hempty : j.file.commentText c w.indentation = ""
  · exact ⟨[], by rw [hempty, w.write_empty]; exact refl w, rfl⟩
  refine ⟨[.code w.margin, .comment c (j.file.commentText c w.indentation)], ?_, ?_⟩
  · rw [w.write_eq hempty]
    exact {
      output := by simp [Piece.textOf]
      indentLevel := rfl
      comments := List.Sublist.refl _
      kept := List.forall_mem_singleton.mpr hkept
      texts := by
        intro c' text hc
        simp only [List.mem_cons, reduceCtorEq, Piece.comment.injEq, List.not_mem_nil, or_false,
          false_or] at hc
        exact ⟨_, hc.1 ▸ hc.2⟩
      linesEnd := ⟨fun hline => absurd hblock (by simp [hline]), trivial⟩ }
  · simp [Piece.codeOf, w.dense_margin]

/-- A comment and the end of its line. -/
theorem commentLine {c : Comment} (hkept : j.file.keeps j.options c = true) (w : Writer) :
    ∃ ps, Stretch j [c] w (w.write (j.file.commentText c w.indentation)).line ps ∧
      Text.dense (Piece.codeOf ps) = [] := by
  by_cases hempty : j.file.commentText c w.indentation = ""
  · obtain ⟨ps, hps, hblank⟩ := line (j := j) w
    rw [hempty, w.write_empty]
    exact ⟨ps, hps.mono (List.nil_sublist _), hblank⟩
  refine ⟨[.code w.margin, .comment c (j.file.commentText c w.indentation), .code "\n"], ?_, ?_⟩
  · rw [w.write_eq hempty, Writer.line_of_started rfl]
    exact {
      output := by simp [Piece.textOf, String.append_assoc]
      indentLevel := rfl
      comments := List.Sublist.refl _
      kept := List.forall_mem_singleton.mpr hkept
      texts := by
        intro c' text hc
        simp only [List.mem_cons, reduceCtorEq, Piece.comment.injEq, List.not_mem_nil, or_false,
          false_or] at hc
        exact ⟨_, hc.1 ▸ hc.2⟩
      linesEnd := ⟨fun _ => rfl, trivial⟩ }
  · simp only [Piece.codeOf, String.append_empty, Text.dense_append, w.dense_margin]
    rfl

end Stretch

namespace Annotation

theorem refl (w : Writer) : Annotation j passed w w [] :=
  { Stretch.refl w with blank := rfl, silent := fun _ => rfl }

theorem trans (h : Annotation j passed w w' ps) (h' : Annotation j passed' w' w'' qs) :
    Annotation j (passed ++ passed') w w'' (ps ++ qs) where
  toStretch := h.toStretch.trans h'.toStretch
  blank := by rw [Piece.codeOf_append, Text.dense_append, h.blank, h'.blank]; rfl
  silent hpassed := by
    obtain ⟨hleft, hright⟩ := List.forall_mem_append.mp hpassed
    rw [h'.silent hright, h.silent hleft]

/-- A stretch that passes over a comment that stays. -/
theorem of_kept {c : Comment} (hkept : j.file.keeps j.options c = true) (hc : c ∈ passed)
    (h : ∃ ps, Stretch j passed w w' ps ∧ Text.dense (Piece.codeOf ps) = []) :
    ∃ ps, Annotation j passed w w' ps := by
  obtain ⟨ps, h, hblank⟩ := h
  refine ⟨ps, h, hblank, fun hnone => ?_⟩
  rw [hnone c hc] at hkept
  cases hkept

theorem mono (h : Annotation j passed w w' ps) (hpassed : passed.Sublist passed') :
    Annotation j passed' w w' ps where
  toStretch := h.toStretch.mono hpassed
  blank := h.blank
  silent hnone := h.silent fun c hc => hnone c (hpassed.subset hc)

end Annotation

namespace Print

/-- Steps that pass over comments and print those that stay. -/
inductive OnComments : Print Unit → Prop
  | skip (offset : Nat) : OnComments (skipComments offset)
  | leading (offset : Nat) : OnComments (leadingComments offset)
  | trailing (offset : Nat) : OnComments (trailingComments offset)
  | brace (offset : Nat) : OnComments (braceComments offset)
  | closing (offset : Nat) : OnComments (closingComments offset)

/-- Steps that add nothing but comments that they pass over. -/
def Annotates (m : Print Unit) : Prop :=
  ∀ (p : PrintPlace) (s : PrintState), ∃ passed ps, s.pending = passed ++ (m p s).2.pending ∧
    Annotation p.job passed s.writer (m p s).2.writer ps

/-- A step on a comment that was passed over. -/
def Notes (c : Comment) (m : Print Unit) : Prop :=
  ∀ (p : PrintPlace) (s : PrintState), (m p s).2.pending = s.pending ∧
    ∃ ps, Annotation p.job [c] s.writer (m p s).2.writer ps

theorem comment_run (c : Comment) (p : PrintPlace) (s : PrintState) :
    comment c p s = ((), { s with
      writer := s.writer.write (p.job.file.commentText c s.writer.indentation) }) := by
  change ((if c.isBlock && (c.text p.job.file.text).toList.contains '\n' then _ else _ :
    Print Unit) p s) = _
  unfold SourceFile.commentText
  split <;> rfl

theorem Notes.forM {step : Comment → Print Unit} (h : ∀ c, Notes c (step c)) (cs : List Comment)
    (p : PrintPlace) (s : PrintState) :
    ((cs.forM step) p s).2.pending = s.pending ∧
      ∃ ps, Annotation p.job cs s.writer ((cs.forM step) p s).2.writer ps := by
  induction cs generalizing s with
  | nil => exact ⟨rfl, [], .refl _⟩
  | cons c cs ih =>
      obtain ⟨hpending, ps, hps⟩ := h c p s
      obtain ⟨hpending', qs, hqs⟩ := ih (step c p s).2
      exact ⟨hpending'.trans hpending, ps ++ qs, hps.trans hqs⟩

/-- A comment that does not stay is passed over without a trace. -/
theorem Notes.whenKept {c : Comment} {m : Print Unit}
    (h : ∀ p s, p.job.file.keeps p.job.options c = true → (m p s).2.pending = s.pending ∧
      ∃ ps, Annotation p.job [c] s.writer (m p s).2.writer ps) :
    Notes c (do if ← isKept c then m) := by
  intro p s
  change (((if p.job.file.keeps p.job.options c then m else pure ()) : Print Unit) p s).2.pending =
    _ ∧ ∃ ps, Annotation p.job [c] s.writer
      (((if p.job.file.keeps p.job.options c then m else pure ()) : Print Unit) p s).2.writer ps
  cases hkept : p.job.file.keeps p.job.options c with
  | true => exact h p s hkept
  | false => exact ⟨rfl, [], .refl _⟩

/-- A comment that stays, with the end of its line or with a space after it. -/
theorem Notes.leading (c : Comment) :
    Notes c (do
      if ← isKept c then
        comment c
        if c.endsLine || !c.isBlock then line else space) := by
  refine .whenKept fun p s hkept => ?_
  have hrun : (comment c >>= fun _ => if c.endsLine || !c.isBlock then line else space) p s =
      (if c.endsLine || !c.isBlock then line else space : Print Unit) p
        (comment c p s).2 := rfl
  rw [hrun, comment_run]
  refine ⟨by split <;> rfl, Annotation.of_kept hkept (List.mem_singleton_self c) ?_⟩
  split
  · exact Stretch.commentLine hkept s.writer
  · rename_i hblock
    obtain ⟨-, hblock⟩ : c.endsLine = false ∧ c.isBlock = true := by simpa using hblock
    obtain ⟨ps, hps, hblank⟩ := Stretch.block hkept hblock s.writer
    obtain ⟨qs, hqs, hspace⟩ := Stretch.write (j := p.job)
      (s.writer.write (p.job.file.commentText c s.writer.indentation)) " "
    refine ⟨ps ++ qs, hps.trans hqs, ?_⟩
    rw [Piece.codeOf_append, Text.dense_append, hblank, hspace]
    rfl

/-- A comment that stays, with the end of its line. -/
theorem Notes.header (c : Comment) :
    Notes c (do
      if ← isKept c then
        comment c
        line) := by
  refine .whenKept fun p s hkept => ?_
  have hrun : (comment c >>= fun _ => line) p s = line p (comment c p s).2 := rfl
  rw [hrun, comment_run]
  exact ⟨rfl, Annotation.of_kept hkept (List.mem_singleton_self c)
    (Stretch.commentLine hkept s.writer)⟩

/-- A comment that stays, on a line of its own. -/
theorem Notes.ownLine (c : Comment) :
    Notes c (do
      if ← isKept c then
        line
        comment c
        line) := by
  refine .whenKept fun p s hkept => ?_
  have hrun : (line >>= fun _ => comment c >>= fun _ => line) p s =
      line p (comment c p (line p s).2).2 := rfl
  rw [hrun, comment_run]
  refine ⟨rfl, Annotation.of_kept hkept (List.mem_singleton_self c) ?_⟩
  obtain ⟨ps, hps, hline⟩ := Stretch.line (j := p.job) s.writer
  obtain ⟨qs, hqs, hblank⟩ := Stretch.commentLine hkept s.writer.line
  refine ⟨ps ++ qs, hps.trans hqs, ?_⟩
  rw [Piece.codeOf_append, Text.dense_append, hline, hblank]
  rfl

theorem Notes.closing (c : Comment) :
    Notes c (do
      if c.startsLine then
        if ← isKept c then
          line
          comment c
          line) := by
  split
  · exact ownLine c
  · exact fun p s => ⟨rfl, [], .refl _⟩

theorem annotates_skipComments (offset : Nat) : Annotates (skipComments offset) := by
  intro p s
  refine ⟨s.pending.takeWhile fun c => c.start < offset, [], ?_, .refl _⟩
  exact List.takeWhile_append_dropWhile.symm

theorem attached_isInitial (f : SourceFile) (offset : Nat) (cs : List Comment) :
    attached f offset cs <+: cs := by
  induction cs generalizing offset with
  | nil => exact List.prefix_refl _
  | cons c cs ih =>
      unfold attached
      split
      · exact (List.prefix_cons_inj c).mpr (ih _)
      · exact List.nil_prefix

theorem annotates_leadingComments (offset : Nat) : Annotates (leadingComments offset) := by
  intro p s
  have hrun : leadingComments offset p s =
      let parts := s.pending.span fun c => c.stop ≤ offset
      ((), { ((attached p.job.file offset parts.1.reverse).reverse.forM
          (fun c => do
            if ← isKept c then
              comment c
              if c.endsLine || !c.isBlock then line else space) p s).2 with pending := parts.2 }) :=
    rfl
  rw [hrun, List.span_eq_takeWhile_dropWhile]
  obtain ⟨-, ps, hps⟩ := Notes.forM Notes.leading (attached p.job.file offset
    (s.pending.takeWhile fun c => c.stop ≤ offset).reverse).reverse p s
  have hsub := (attached_isInitial p.job.file offset
    (s.pending.takeWhile fun c => c.stop ≤ offset).reverse).sublist.reverse
  rw [List.reverse_reverse] at hsub
  exact ⟨s.pending.takeWhile fun c => c.stop ≤ offset, ps,
    List.takeWhile_append_dropWhile.symm, hps.mono hsub⟩

theorem annotates_closingComments (offset : Nat) : Annotates (closingComments offset) := by
  intro p s
  have hrun : closingComments offset p s =
      let parts := s.pending.span fun c => c.stop ≤ offset
      (parts.1.forM fun c => do
        if c.startsLine then
          if ← isKept c then
            line
            comment c
            line) p { s with pending := parts.2 } := rfl
  rw [hrun, List.span_eq_takeWhile_dropWhile]
  obtain ⟨hpending, ps, hps⟩ := Notes.forM Notes.closing (s.pending.takeWhile fun c =>
    c.stop ≤ offset) p { s with pending := s.pending.dropWhile fun c => c.stop ≤ offset }
  refine ⟨s.pending.takeWhile fun c => c.stop ≤ offset, ps, ?_, hps⟩
  rw [hpending]
  exact List.takeWhile_append_dropWhile.symm

theorem Annotates.pure : Annotates (Pure.pure ()) := fun _ _ => ⟨[], [], rfl, .refl _⟩

/-- Steps that print a comment that stays, and pass over others, add nothing but comments. -/
theorem exists_annotation {c : Comment} {skipped passed : List Comment} {p : PrintPlace}
    {s s' : PrintState} {ps : List Piece} (hkept : p.job.file.keeps p.job.options c = true)
    (hs : s.pending = skipped ++ c :: (passed ++ s'.pending))
    (h : Stretch p.job (c :: passed) s.writer s'.writer ps)
    (hblank : Text.dense (Piece.codeOf ps) = []) :
    ∃ passed ps, s.pending = passed ++ s'.pending ∧
      Annotation p.job passed s.writer s'.writer ps := by
  obtain ⟨qs, hqs⟩ := Annotation.of_kept hkept (List.mem_append_right skipped List.mem_cons_self)
    ⟨ps, h.mono (List.sublist_append_right skipped _), hblank⟩
  exact ⟨skipped ++ c :: passed, qs, by rw [hs, List.append_assoc, List.cons_append], hqs⟩

/-- A comment on the line, which is printed if it stays, and what follows if the line goes on. -/
theorem annotation_trailing {m : Print Unit} (hm : Annotates m) {c : Comment}
    {skipped rest : List Comment} (p : PrintPlace) {s : PrintState}
    (hs : s.pending = skipped ++ c :: rest) :
    let after := ((do
      setPending rest
      if ← isKept c then
        space
        comment c
        if c.isBlock then m else line
      else m : Print Unit) p s).2
    ∃ passed ps, s.pending = passed ++ after.pending ∧
      Annotation p.job passed s.writer after.writer ps := by
  intro after
  have hrun : after = ((if p.job.file.keeps p.job.options c then (do
      space
      comment c
      if c.isBlock then m else line)
    else m : Print Unit) p { s with pending := rest }).2 := rfl
  cases hkept : p.job.file.keeps p.job.options c with
  | false =>
      rw [hkept] at hrun
      obtain ⟨passed, ps, hpending, hps⟩ := hm p { s with pending := rest }
      refine ⟨skipped ++ c :: passed, ps, ?_, ?_⟩
      · rw [hs, hrun, List.append_assoc, List.cons_append]
        exact congrArg (skipped ++ c :: ·) hpending
      · rw [hrun]
        exact hps.mono (List.sublist_append_of_sublist_right (List.sublist_cons_self c passed))
  | true =>
      rw [hkept] at hrun
      obtain ⟨ps, hps, hspace⟩ := Stretch.write (j := p.job) s.writer " "
      cases hblock : c.isBlock with
      | true =>
          rw [hblock] at hrun
          have hnext : after = (m p (comment c p ⟨s.writer.write " ", rest⟩).2).2 := hrun
          rw [comment_run] at hnext
          obtain ⟨qs, hqs, hblank⟩ := Stretch.block hkept hblock (s.writer.write " ")
          obtain ⟨passed, rs, hpending, hrs⟩ := hm p ⟨(s.writer.write " ").write
            (p.job.file.commentText c (s.writer.write " ").indentation), rest⟩
          rw [hnext]
          refine exists_annotation hkept (hs.trans (congrArg (skipped ++ c :: ·) hpending))
            (hps.trans (hqs.trans hrs.toStretch)) ?_
          simp only [Piece.codeOf_append, Text.dense_append, hspace, hblank, hrs.blank]
          rfl
      | false =>
          rw [hblock] at hrun
          have hnext : after = (line p (comment c p ⟨s.writer.write " ", rest⟩).2).2 := hrun
          rw [comment_run] at hnext
          obtain ⟨qs, hqs, hblank⟩ := Stretch.commentLine hkept (s.writer.write " ")
          rw [hnext]
          refine exists_annotation hkept hs (hps.trans hqs) ?_
          simp only [Piece.codeOf_append, Text.dense_append, hspace, hblank]
          rfl

theorem trailingFrom_succ (fuel offset : Nat) (isSeparated : Bool) (p : PrintPlace)
    (s : PrintState) :
    trailingFrom (fuel + 1) offset isSeparated p s =
      let next := if isSeparated then (p.job.file.skipBlanks offset, true)
        else p.job.file.skipSeparator offset
      (match s.pending.dropWhile fun c => c.start ≠ next.1 with
      | [] => pure ()
      | c :: rest =>
          if c.isBlock && p.job.file.breaksBetween c.start c.stop then pure ()
          else do
            setPending rest
            if ← isKept c then
              space
              comment c
              if c.isBlock then trailingFrom fuel c.stop next.2 else line
            else trailingFrom fuel c.stop next.2 : Print Unit) p s :=
  rfl

theorem annotates_trailingFrom (fuel offset : Nat) (isSeparated : Bool) :
    Annotates (trailingFrom fuel offset isSeparated) := by
  induction fuel generalizing offset isSeparated with
  | zero => exact .pure
  | succ fuel ih =>
      intro p s
      rw [trailingFrom_succ]
      generalize (if isSeparated then (p.job.file.skipBlanks offset, true)
        else p.job.file.skipSeparator offset) = separated
      obtain ⟨start, isSeparated⟩ := separated
      dsimp only
      cases hrest : s.pending.dropWhile fun c => c.start ≠ start with
      | nil => exact Annotates.pure p s
      | cons c rest =>
          dsimp only
          split
          · exact Annotates.pure p s
          · have hs : s.pending = (s.pending.takeWhile fun c => c.start ≠ start) ++ c :: rest := by
              rw [← hrest, List.takeWhile_append_dropWhile]
            exact annotation_trailing (ih _ _) p hs

theorem annotates_trailingComments (offset : Nat) : Annotates (trailingComments offset) :=
  fun p s => annotates_trailingFrom s.pending.length offset false p s

theorem annotates_braceComments (offset : Nat) : Annotates (braceComments offset) := by
  intro p s
  have hrun : braceComments offset p s =
      (if (s.pending.find? fun c => c.start = p.job.file.skipBlanks (offset + 1)).any
        Comment.endsLine then trailingComments (offset + 1) else pure () : Print Unit) p s := rfl
  rw [hrun]
  split
  · exact annotates_trailingComments _ p s
  · exact Annotates.pure p s

theorem OnComments.annotates {m : Print Unit} (h : OnComments m) : Annotates m := by
  cases h with
  | skip offset => exact annotates_skipComments offset
  | leading offset => exact annotates_leadingComments offset
  | trailing offset => exact annotates_trailingComments offset
  | brace offset => exact annotates_braceComments offset
  | closing offset => exact annotates_closingComments offset

end Print
end Erasure
