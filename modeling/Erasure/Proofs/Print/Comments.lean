import Erasure.Proofs.Print.Composed.File

/-!
The comments of a file in its output. They are passed over from the first to the last, so those that
are printed stand in the order of the source, each of them once. Between them stands the code that
is printed of the file without comments, broken into lines and spaced as the comments need it: a
comment up to the end of a line is followed by a line break.

Comments that do not stay leave no trace. A step writes the same text, and gives the same result,
whether such comments are still to come or none at all: they move no line break and no space, and
they do not decide what is erased.
-/

namespace Erasure
namespace Print

/-- The comments still to come after a step are the last of those before it. -/
def Advances {α : Type} (m : Print α) : Prop :=
  ∀ (p : PrintPlace) (s : PrintState), (m p s).2.pending <:+ s.pending

theorem OnComments.advances {m : Print Unit} (h : OnComments m) : Advances m := by
  intro p s
  obtain ⟨passed, -, hpending, -⟩ := h.annotates p s
  exact ⟨passed, hpending.symm⟩

theorem Composed.advances {α : Type} {m : Print α} (h : Composed m) : Advances m := by
  intro p s
  obtain ⟨-, ps, -, hps, -⟩ := h.weaves p s { pending := [] } rfl
  exact hps.pending_suffix

end Print

namespace SourceFile

variable {f : SourceFile} {o : Options} {c : Comment}

theorem not_directive_of_keeps (h : f.keeps o c = true) :
    f.isDirectivePosition c.start = false := by
  unfold keeps at h
  rw [Bool.and_eq_true] at h
  simpa using h.1

theorem pinned_of_keeps (h : f.keeps o c = true) (ho : o.removeComments = true) :
    c.isPinned f.text = true := by
  unfold keeps at h
  rw [Bool.and_eq_true, ho] at h
  exact h.2

/-- A text that is made up of code and of comments of a file. -/
structure Woven (f : SourceFile) (o : Options) (code text : String) (ps : List Piece) : Prop where
  text_eq : text = Piece.textOf ps
  /-- What is no comment is the code, up to spaces and line feeds. -/
  code_eq : Text.dense (Piece.codeOf ps) = Text.dense code
  /-- The comments have increasing positions in the list of comments. -/
  increasing : ∃ positions : List (Fin f.comments.length), positions.Pairwise (· < ·) ∧
    Piece.commentsOf ps = positions.map fun i => f.comments[i]
  not_directive : ∀ c ∈ Piece.commentsOf ps, f.isDirectivePosition c.start = false
  pinned : o.removeComments = true → ∀ c ∈ Piece.commentsOf ps, c.isPinned f.text = true
  texts : ∀ c text, .comment c text ∈ ps → ∃ indentation, text = f.commentText c indentation
  /-- A line break follows each comment that runs up to the end of its line. -/
  linesEnd : Piece.LinesEnd ps

end SourceFile

theorem Piece.textOf_eq_codeOf {ps : List Piece} (h : commentsOf ps = []) :
    textOf ps = codeOf ps := by
  induction ps with
  | nil => rfl
  | cons p ps ih =>
      cases p with
      | code text => exact congrArg (text ++ ·) (ih h)
      | comment c text => cases h

namespace PrintJob

/-- The comments that a job passes over, and what it adds to its empty output. -/
theorem exists_stretch (j : PrintJob) : ∃ passed ps, passed <+: j.file.comments ∧
    Stretch j passed {} (j.body j.place j.afterHeader).2.writer.line ps ∧
      Text.dense (Piece.codeOf ps) = Text.dense j.uncommented.text := by
  obtain ⟨passed, hs, hheader, hhs⟩ :=
    Print.annotates_headerComments j.place (s := { pending := j.file.comments }) rfl
  obtain ⟨-, ps, ps₀, ⟨passed', hpending, hps⟩, ⟨passed₀, hpending₀, hps₀⟩, hcode⟩ :=
    j.composed_body.weaves j.place j.afterHeader { pending := [] } rfl
  obtain ⟨ls, hls, hline⟩ := Stretch.line (j := j)
    (j.body j.place j.afterHeader).2.writer
  obtain ⟨ls₀, hls₀, hline₀⟩ := Stretch.line (j := j)
    (j.body j.place { pending := [] }).2.writer
  -- Without comments there is nothing but code.
  obtain ⟨rfl, -⟩ : passed₀ = [] ∧ _ := List.append_eq_nil_iff.mp hpending₀.symm
  have hplain : Stretch j [] {} _ (ps₀ ++ ls₀) := hps₀.trans hls₀
  have htext : j.uncommented.text = Piece.codeOf (ps₀ ++ ls₀) := by
    rw [j.text_uncommented, Writer.finish, hplain.output,
      Piece.textOf_eq_codeOf (List.sublist_nil.mp hplain.comments)]
    exact String.empty_append
  refine ⟨passed ++ (passed' ++ []), hs ++ (ps ++ ls), ?_, hhs.toStretch.trans (hps.trans hls), ?_⟩
  · refine ⟨(j.body j.place j.afterHeader).2.pending, ?_⟩
    rw [List.append_nil, List.append_assoc]
    exact (hheader.trans (congrArg (passed ++ ·) hpending)).symm
  · rw [htext]
    simp only [Piece.codeOf_append, Text.dense_append, hhs.blank, hline, hline₀, hcode]
    rfl

end PrintJob

open Print in
/-- Comments are passed over in order, whatever is printed. The output of a file is its output
without comments with some of its comments in order, each of them printed once. -/
theorem SourceFile.print_weaves_comments (f : SourceFile) (b : Bindings) (o : Options) :
    (∀ fuel slot n, Advances (nodeWithin fuel slot n)) ∧
      (∀ offset, Advances (skipComments offset) ∧ Advances (leadingComments offset) ∧
        Advances (trailingComments offset) ∧ Advances (braceComments offset) ∧
        Advances (closingComments offset)) ∧
      (let j := PrintJob.ofFile f b o
       j.afterHeader.pending <:+ f.comments ∧
        (j.body j.place j.afterHeader).2.pending <:+ j.afterHeader.pending) ∧
      ∃ ps, f.Woven o (f.uncommented.print b o) (f.print b o) ps := by
  let j := PrintJob.ofFile f b o
  refine ⟨fun fuel slot n => (ComposedNodes.nodeWithin fuel slot n).advances, fun offset =>
    ⟨(OnComments.skip offset).advances, (OnComments.leading offset).advances,
      (OnComments.trailing offset).advances, (OnComments.brace offset).advances,
      (OnComments.closing offset).advances⟩, ⟨?_, j.composed_body.advances _ _⟩, ?_⟩
  · obtain ⟨passed, -, hheader, -⟩ :=
      annotates_headerComments j.place (s := { pending := f.comments }) rfl
    exact ⟨passed, hheader.symm⟩
  · obtain ⟨passed, ps, hpassed, hps, hcode⟩ := j.exists_stretch
    obtain ⟨positions, hpositions, hincreasing⟩ :=
      List.sublist_eq_map_getElem (hps.comments.trans hpassed.sublist)
    exact ⟨ps, {
      text_eq := hps.output.trans String.empty_append
      code_eq := hcode
      increasing := ⟨positions, hincreasing, hpositions⟩
      not_directive := fun c hc => not_directive_of_keeps (hps.kept c hc)
      pinned := fun ho c hc => pinned_of_keeps (hps.kept c hc) ho
      texts := hps.texts
      linesEnd := hps.linesEnd }⟩

namespace Print

/-- A step does the same with comments to come that do not stay as with none. -/
def Unmoved {α : Type} (m : Print α) : Prop :=
  ∀ (p : PrintPlace) (w : Writer) (cs : List Comment),
    (∀ c ∈ cs, p.job.file.keeps p.job.options c = false) →
      ∃ a w' rest, rest <:+ cs ∧ m p ⟨w, cs⟩ = (a, ⟨w', rest⟩) ∧ m p ⟨w, []⟩ = (a, ⟨w', []⟩)

namespace Unmoved

variable {α β : Type} {m : Print α}

/-- A step on the text alone. -/
theorem ofWriter (f : Writer → α × Writer)
    (h : ∀ p s, m p s = ((f s.writer).1, { s with writer := (f s.writer).2 })) : Unmoved m :=
  fun p w cs _ => ⟨(f w).1, (f w).2, cs, List.suffix_rfl, h p ⟨w, cs⟩, h p ⟨w, []⟩⟩

theorem pure (a : α) : Unmoved (Pure.pure a : Print α) := ofWriter (fun w => (a, w)) fun _ _ => rfl

theorem bind {k : α → Print β} (h : Unmoved m) (hk : ∀ a, Unmoved (k a)) :
    Unmoved (m >>= k) := by
  intro p w cs hcs
  obtain ⟨a, w', rest, hrest, hrun, hrun₀⟩ := h p w cs hcs
  obtain ⟨b, w'', rest', hrest', hnext, hnext₀⟩ :=
    hk a p w' rest fun c hc => hcs c (hrest.subset hc)
  refine ⟨b, w'', rest', hrest'.trans hrest, ?_, ?_⟩
  · change (match m p ⟨w, cs⟩ with | (a, s) => k a p s) = _
    rw [hrun]
    exact hnext
  · change (match m p ⟨w, []⟩ with | (a, s) => k a p s) = _
    rw [hrun₀]
    exact hnext₀

theorem seq {n : Print β} (h : Unmoved m) (hn : Unmoved n) : Unmoved (m >>= fun _ => n) :=
  h.bind fun _ => hn

theorem ite {c : Prop} [Decidable c] {n : Print α} (h : Unmoved m) (hn : Unmoved n) :
    Unmoved (if c then m else n) := by
  split
  · exact h
  · exact hn

theorem ask {k : PrintPlace → Print β} (h : ∀ p, Unmoved (k p)) :
    Unmoved (MonadReader.read >>= k) :=
  fun p => h p p

/-- A step in another place of the same job. -/
theorem within {f : PrintPlace → PrintPlace} (h : Unmoved m) (hf : ∀ p, (f p).job = p.job) :
    Unmoved (withReader f m) := by
  intro p w cs hcs
  rw [← hf p] at hcs
  exact h (f p) w cs hcs

theorem write (text : String) : Unmoved (write text) :=
  ofWriter (fun w => ((), w.write text)) fun _ _ => rfl

theorem line : Unmoved line := ofWriter (fun w => ((), w.line)) fun _ _ => rfl

theorem mark : Unmoved mark := ofWriter (fun w => (w.mark, w)) fun _ _ => rfl

theorem rewind (start : Writer.Mark) : Unmoved (rewind start) :=
  ofWriter (fun w => ((), w.rewind start)) fun _ _ => rfl

theorem wroteSince (start : Writer.Mark) : Unmoved (wroteSince start) :=
  ofWriter (fun w => (w.wroteSince start, w)) fun _ _ => rfl

theorem indented (h : Unmoved m) : Unmoved (indented m) := by
  have hindent : Unmoved (modify fun s => { s with writer := s.writer.indent } : Print Unit) :=
    ofWriter (fun w => ((), w.indent)) fun _ _ => rfl
  have hdedent : Unmoved (modify fun s => { s with writer := s.writer.dedent } : Print Unit) :=
    ofWriter (fun w => ((), w.dedent)) fun _ _ => rfl
  exact hindent.seq (h.bind fun a => hdedent.seq (pure a))

theorem onComments {m : Print Unit} (h : OnComments m) : Unmoved m := by
  intro p w cs hcs
  obtain ⟨passed, ps, hpending, hps⟩ := h.annotates p ⟨w, cs⟩
  obtain ⟨passed₀, ps₀, hpending₀, hps₀⟩ := h.annotates p ⟨w, []⟩
  obtain ⟨rfl, hrest₀⟩ := List.append_eq_nil_iff.mp hpending₀.symm
  have hwriter : (m p ⟨w, cs⟩).2.writer = w := by
    refine hps.silent fun c hc => hcs c ?_
    rw [show cs = passed ++ (m p ⟨w, cs⟩).2.pending from hpending]
    exact List.mem_append_left _ hc
  have hwriter₀ : (m p ⟨w, []⟩).2.writer = w := hps₀.silent (List.forall_mem_nil _)
  refine ⟨(), w, (m p ⟨w, cs⟩).2.pending, ⟨passed, hpending.symm⟩, ?_, ?_⟩
  · exact Prod.ext rfl (congrArg (PrintState.mk · _) hwriter)
  · exact Prod.ext rfl (congrArg₂ PrintState.mk hwriter₀ hrest₀)

theorem commented {m : Print Unit} (span : Span) (h : Unmoved m) : Unmoved (commented span m) := by
  refine mark.bind fun start => (onComments (.leading _)).seq (mark.bind fun body => h.seq ?_)
  refine (wroteSince body).bind fun _ => ite ?_ ?_
  · exact (onComments (.skip _)).seq ((onComments (.trailing _)).seq (pure true))
  · exact (rewind start).seq ((onComments (.skip _)).seq (pure false))

theorem tentative {m : Print Bool} (h : Unmoved m) : Unmoved (tentative m) :=
  mark.bind fun start => (write " ").seq (h.bind fun _ => ite (rewind start) (pure ()))

end Unmoved

theorem Composed.unmoved {α : Type} {m : Print α} (h : Composed m) : Unmoved m := by
  induction h with
  | pure a => exact .pure a
  | bind _ _ ihm ihk => exact ihm.bind ihk
  | ask _ _ ih => exact .ask ih
  | inScopeOf _ _ ih | withTarget _ _ ih | withEnum _ _ ih => exact ih.within fun _ => rfl
  | write text => exact .write text
  | line => exact .line
  | indented _ ih => exact ih.indented
  | comments h => exact .onComments h
  | commented span _ _ ih => exact ih.commented span
  | tentative _ ih => exact ih.tentative

end Print

/-- If none of the comments of a job stays, its text is the text without comments. -/
theorem PrintJob.text_eq_uncommented (j : PrintJob)
    (h : ∀ c ∈ j.file.comments, j.file.keeps j.options c = false) :
    j.text = j.uncommented.text := by
  obtain ⟨passed, ps, hpending, hps⟩ :=
    Print.annotates_headerComments j.place (s := { pending := j.file.comments }) rfl
  have hcomments : j.file.comments = passed ++ j.afterHeader.pending := hpending
  have hwriter : j.afterHeader.writer = {} := by
    refine hps.silent fun c hc => h c ?_
    rw [hcomments]
    exact List.mem_append_left _ hc
  obtain ⟨a, w, rest, -, hrun, hrun₀⟩ := j.composed_body.unmoved j.place {} j.afterHeader.pending
    fun c hc => h c (hcomments ▸ List.mem_append_right _ hc)
  have hstate : j.afterHeader = ⟨{}, j.afterHeader.pending⟩ :=
    congrArg (PrintState.mk · _) hwriter
  rw [j.text_eq, j.text_uncommented, hstate, hrun, hrun₀]

/-- If comments are to be removed and none is pinned, they leave nothing behind. -/
theorem SourceFile.print_eq_uncommented (f : SourceFile) (o : Options)
    (ho : o.removeComments = true) (hf : ∀ c ∈ f.comments, c.isPinned f.text = false) :
    f.print f.bind o = f.uncommented.print f.uncommented.bind o := by
  refine (PrintJob.ofFile f f.bind o).text_eq_uncommented fun c hc => ?_
  change (!f.isDirectivePosition c.start && (!o.removeComments || c.isPinned f.text)) = false
  rw [ho, hf c hc]
  exact Bool.and_false _

/-- The statement `x;` between two comments. -/
def remarkedFile : SourceFile where
  fileName := "input.ts"
  text := "// a\nx; /* b */"
  statements := [⟨1, ⟨5, 7⟩, .exprStmt ⟨2, ⟨5, 6⟩, .identifier "x"⟩⟩]
  comments := [
    { start := 0, stop := 4, isBlock := false, endsLine := true, startsLine := true },
    { start := 8, stop := 15, isBlock := true, endsLine := true, startsLine := false }]
  endOfFile := 15
  nodeCount := 3

theorem remarkedFile_printed_plain :
    let o : Options := { removeComments := true }
    let f := remarkedFile
    (∀ c ∈ f.comments, c.isPinned f.text = false) ∧
      f.print f.bind o = f.uncommented.print f.uncommented.bind o ∧ f.print f.bind o = "x;\n" ∧
      f.print f.bind {} = "// a\nx; /* b */\n" := by
  intro o f
  have hpinned : ∀ c ∈ f.comments, c.isPinned f.text = false := by decide +kernel
  exact ⟨hpinned, f.print_eq_uncommented o rfl hpinned, by decide +kernel, by decide +kernel⟩

end Erasure
