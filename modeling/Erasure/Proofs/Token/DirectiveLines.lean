import Erasure.Directive
import Erasure.Proofs.Token.Coverage
import Erasure.Proofs.Token.Skipped

/-!
Directives and the scanner. The head of a file is read line by line, and a line that starts with a
comment counts as a comment. Where the lines up to a directive hold nothing but comments indeed, the
scanner finds a line comment on the line of the directive, and every token behind that line.
-/

namespace Erasure

namespace DirectiveSet

/-- The text holds nothing but blanks and comments, and no block comment goes on behind it. -/
def isClearWithin : Nat → List Char → Bool
  | 0, _ => false
  | fuel + 1, cs =>
      match cs.dropWhile Text.isBlank with
      | [] => true
      | '/' :: '/' :: body => isClearWithin fuel (body.dropWhile fun c => !Text.isLineBreak c)
      | '/' :: '*' :: body =>
          (blockCommentLength? body).any fun n => isClearWithin fuel (body.drop n)
      | _ => false

def isClear (cs : List Char) : Bool := isClearWithin (cs.length + 1) cs

/-- If a comment ends in a text, nothing but blanks and comments is left behind its end. -/
def isClearBehind (cs : List Char) : Bool :=
  (blockCommentLength? cs).all fun n => isClear (cs.drop n)

/-- The lines up to the first line of code hold nothing but blanks and comments. A block comment
goes on behind a line only if the line starts with it or inside of it. -/
def isTidy (inComment : Bool) : List (List Char) → Bool
  | [] => true
  | line :: rest =>
      let trimmed := Text.trimChars line
      if inComment then isClearBehind trimmed && isTidy (!Text.hasInfix ['*', '/'] trimmed) rest
      else match trimmed with
        | [] => isTidy false rest
        | '/' :: '/' :: _ => isClear trimmed && isTidy false rest
        | '/' :: '*' :: body => isClearBehind body && isTidy (!Text.hasInfix ['*', '/'] body) rest
        | _ => true

/-- The lines that start before an offset. -/
def linesTo (offset : Nat) : List (List Char) → List (List Char)
  | [] => []
  | line :: rest =>
      if offset = 0 then [] else line :: linesTo (offset - Text.byteSize line) rest

/-- Trivia leads from a text to the lines to come, or to a block comment that goes on in them. -/
inductive Reaches (atStart : Bool) (cs : List Char) : Bool → List (List Char) → Prop where
  | outside {lines : List (List Char)} (trivia : Trivia atStart cs lines.flatten) :
      Reaches atStart cs false lines
  | inside {before : List Char} {lines : List (List Char)}
      (trivia : Trivia atStart cs ('/' :: '*' :: (before ++ lines.flatten)))
      (isOpen : Text.hasInfix ['*', '/'] before = false)
      (last : lines ≠ [] → before.getLast? ≠ some '*') : Reaches atStart cs true lines

theorem not_slash_of_blank {bs : List Char} (h : ∀ c ∈ bs, Text.isBlank c = true) : '/' ∉ bs :=
  fun hmem => absurd (h _ hmem) (by decide)

/-- Behind a line comment blanks are left of its line, or what is left of the text. -/
theorem trivia_behindLine {body trail after : List Char}
    (h : Trivia false ((body.dropWhile fun c => !Text.isLineBreak c) ++ (trail ++ after)) after)
    (htrail : ∀ c ∈ trail, Text.isBlank c = true) (hfeed : after ≠ [] → '\n' ∈ trail) :
    Trivia false ((body ++ (trail ++ after)).dropWhile fun c => !Text.isLineBreak c) after := by
  rw [List.dropWhile_append]
  split
  · rw [List.dropWhile_append]
    split
    · rename_i hnil
      have hafter : after = [] := by
        by_contra hne
        rw [List.isEmpty_iff, List.dropWhile_eq_nil_iff] at hnil
        exact absurd (hnil _ (hfeed hne)) (by decide)
      rw [hafter]
      exact .refl _ _
    · exact Trivia.blanks (fun c hc => htrail c ((List.dropWhile_suffix _).subset hc)) after
  · exact h

/-- A clear text with blanks behind it is trivia. -/
theorem trivia_of_isClearWithin {fuel : Nat} {cs trail after : List Char}
    (h : isClearWithin fuel cs = true) (htrail : ∀ c ∈ trail, Text.isBlank c = true)
    (hfeed : after ≠ [] → '\n' ∈ trail) : Trivia false (cs ++ (trail ++ after)) after := by
  induction fuel generalizing cs with
  | zero => cases h
  | succ fuel ih =>
      have hblanks : ∀ c ∈ cs.takeWhile Text.isBlank, Text.isBlank c = true :=
        fun c hc => List.mem_takeWhile_imp hc
      rw [← @List.takeWhile_append_dropWhile Char Text.isBlank cs, List.append_assoc]
      refine (Trivia.blanks hblanks _).trans ?_
      unfold isClearWithin at h
      split at h
      · rename_i hnil
        rw [hnil]
        exact Trivia.blanks htrail after
      · rename_i body hline
        rw [hline]
        exact (Trivia.restOfLine _).trans (trivia_behindLine (ih h) htrail hfeed)
      · rename_i body hblock
        obtain ⟨n, hlen, hclear⟩ := (Option.any_eq_true _ _).mp h
        obtain ⟨inner, heq, -, hinner⟩ := blockCommentLength?_eq_some hlen
        rw [hblock, heq]
        have hpassed : Trivia false _ after := .blockComment hinner (ih hclear)
        simpa using hpassed
      · cases h

/-- The line feed at the end of a line is among the blanks there. -/
theorem feed_mem_trail {lead trimmed trail : List Char}
    (hlast : ∀ c ∈ trimmed.getLast?, Text.isBlank c = false) (hne : trimmed ≠ [])
    (h : (lead ++ (trimmed ++ trail)).getLast? = some '\n') : '\n' ∈ trail := by
  rw [List.getLast?_append_of_ne_nil _ (by simp [hne]), List.getLast?_append] at h
  cases htrail : trail.getLast? with
  | none =>
      rw [htrail, Option.none_or] at h
      exact absurd (hlast _ h) (by decide)
  | some last =>
      rw [htrail, Option.some_or, Option.some.injEq] at h
      exact h ▸ List.mem_of_getLast? htrail

section
variable {atStart : Bool} {cs line : List Char} {rest : List (List Char)}

/-- A line inside a block comment, with blanks around its text. -/
theorem reaches_comment {before lead trimmed trail : List Char}
    (h : Trivia atStart cs
      ('/' :: '*' :: (before ++ (lead ++ (trimmed ++ trail) ++ rest.flatten))))
    (hopen : Text.hasInfix ['*', '/'] before = false) (hlast : before.getLast? ≠ some '*')
    (hlead : ∀ c ∈ lead, Text.isBlank c = true) (htrail : ∀ c ∈ trail, Text.isBlank c = true)
    (hend : rest ≠ [] → (before ++ (lead ++ (trimmed ++ trail))).getLast? ≠ some '*')
    (hfeed : trimmed ≠ [] → rest ≠ [] → '\n' ∈ trail) (hclear : isClearBehind trimmed = true) :
    Reaches atStart cs (!Text.hasInfix ['*', '/'] trimmed) rest := by
  have hleadLast : lead.getLast? ≠ some '*' := fun heq =>
    absurd (hlead _ (List.mem_of_getLast? heq)) (by decide)
  have hleadIn : Text.hasInfix ['*', '/'] lead = false := by
    have := Text.hasInfix_append_right (not_slash_of_blank hlead) []
    exact this
  cases hlen : blockCommentLength? trimmed with
  | some n =>
      obtain ⟨body, heq, -, hbody⟩ := blockCommentLength?_eq_some hlen
      have hbehind : isClear (trimmed.drop n) = true := by
        simpa [isClearBehind, hlen] using hclear
      have hin : Text.hasInfix ['*', '/'] trimmed = true := by
        rw [Text.hasInfix_iff, heq]
        exact ⟨body, trimmed.drop n, by simp⟩
      have hne : trimmed ≠ [] := by
        rintro rfl
        cases hin
      have hcomment : Text.hasInfix ['*', '/'] ((before ++ (lead ++ body)) ++ ['*']) = false := by
        rw [List.append_assoc, Text.hasInfix_append_left _ hopen hlast, List.append_assoc,
          Text.hasInfix_append_left _ hleadIn hleadLast, hbody]
      have hrest : rest.flatten ≠ [] → '\n' ∈ trail := fun hne' =>
        hfeed hne fun hnil => hne' (by rw [hnil]; rfl)
      rw [hin]
      refine .outside (h.trans ?_)
      have hpassed : Trivia false _ rest.flatten :=
        .blockComment hcomment (trivia_of_isClearWithin hbehind htrail hrest)
      rw [heq]
      simpa using hpassed
  | none =>
      have hin := blockCommentLength?_eq_none hlen
      have hinside : Trivia atStart cs
          ('/' :: '*' :: ((before ++ (lead ++ (trimmed ++ trail))) ++ rest.flatten)) := by
        simpa using h
      rw [hin]
      refine .inside hinside ?_ hend
      rw [Text.hasInfix_append_left _ hopen hlast, Text.hasInfix_append_left _ hleadIn hleadLast,
        Text.hasInfix_append_right (not_slash_of_blank htrail), hin]

variable (hline : rest ≠ [] → line.getLast? = some '\n')
include hline

theorem getLast?_append_line (before : List Char) :
    rest ≠ [] → (before ++ line).getLast? ≠ some '*' := by
  intro hrest
  rw [List.getLast?_append, hline hrest, Option.some_or]
  decide

theorem Reaches.comment (h : Reaches atStart cs true (line :: rest))
    (hclear : isClearBehind (Text.trimChars line) = true) :
    Reaches atStart cs (!Text.hasInfix ['*', '/'] (Text.trimChars line)) rest := by
  cases h with
  | @inside before _ trivia isOpen last =>
      have hend := getLast?_append_line hline before
      have hlast := @Text.not_isBlank_of_mem_getLast?_trimChars line
      obtain ⟨lead, trail, heq, hlead, htrail⟩ := Text.trimChars_split line
      generalize Text.trimChars line = trimmed at heq hclear hlast ⊢
      subst heq
      exact reaches_comment trivia isOpen (last (List.cons_ne_nil _ _)) hlead htrail hend
        (fun hne hrest => feed_mem_trail (fun _ hc => hlast hc) hne (hline hrest)) hclear

omit hline in
theorem Reaches.blank (h : Reaches atStart cs false (line :: rest))
    (hblank : Text.trimChars line = []) : Reaches atStart cs false rest := by
  cases h with
  | outside trivia =>
      obtain ⟨lead, trail, heq, hlead, htrail⟩ := Text.trimChars_split line
      rw [hblank, List.nil_append] at heq
      refine .outside (trivia.trans ?_)
      rw [List.flatten_cons, heq]
      exact Trivia.blanks (List.forall_mem_append.mpr ⟨hlead, htrail⟩) _

theorem Reaches.opening (h : Reaches atStart cs false (line :: rest)) {body : List Char}
    (htrim : Text.trimChars line = '/' :: '*' :: body) (hclear : isClearBehind body = true) :
    Reaches atStart cs (!Text.hasInfix ['*', '/'] body) rest := by
  cases h with
  | outside trivia =>
      have hlast := @Text.not_isBlank_of_mem_getLast?_trimChars line
      obtain ⟨lead, trail, heq, hlead, htrail⟩ := Text.trimChars_split line
      rw [htrim] at heq hlast
      have hfeed : rest ≠ [] → '\n' ∈ trail := fun hrest =>
        feed_mem_trail (fun _ hc => hlast hc) (List.cons_ne_nil _ _) (heq ▸ hline hrest)
      have hend : rest ≠ [] → (body ++ trail).getLast? ≠ some '*' := by
        intro hrest hstar
        have hfeed := hline hrest
        rw [heq, List.cons_append, List.cons_append, List.getLast?_append_cons,
          List.getLast?_cons_cons, List.getLast?_cons, hstar] at hfeed
        cases hfeed
      rw [List.flatten_cons, heq, List.append_assoc] at trivia
      have hopen := trivia.trans (Trivia.blanks hlead _)
      have hinside : Trivia atStart cs
          ('/' :: '*' :: ([] ++ ([] ++ (body ++ trail) ++ rest.flatten))) := by
        simpa using hopen
      exact reaches_comment hinside rfl nofun nofun htrail hend (fun _ => hfeed) hclear

end

/-- From a text, trivia leads to a line comment that has only blanks before it on a line, and from
the end of the comment on to the end of the line. -/
inductive FindsComment (atStart : Bool) (cs : List Char) (size : Nat) (span : Span) : Prop where
  | intro {lead body after : List Char}
      (before : Trivia atStart cs (lead ++ '/' :: '/' :: body))
      (blank : ∀ c ∈ lead, Text.isBlank c = true)
      (behind : Trivia false (body.dropWhile fun c => !Text.isLineBreak c) after)
      (start : span.start + Text.byteSize (lead ++ '/' :: '/' :: body) = size)
      (stop : span.stop + Text.byteSize after = size)

theorem Reaches.lineComment {atStart : Bool} {cs line body : List Char} {rest : List (List Char)}
    {offset size : Nat} (h : Reaches atStart cs false (line :: rest))
    (hline : rest ≠ [] → line.getLast? = some '\n')
    (htrim : Text.trimChars line = '/' :: '/' :: body)
    (hclear : isClear ('/' :: '/' :: body) = true)
    (hsize : offset + Text.byteSize (line :: rest).flatten = size) :
    Reaches atStart cs false rest ∧
      FindsComment atStart cs size ⟨offset, offset + Text.byteSize line⟩ := by
  cases h with
  | outside trivia =>
      have hlast := @Text.not_isBlank_of_mem_getLast?_trimChars line
      obtain ⟨lead, trail, heq, hlead, htrail⟩ := Text.trimChars_split line
      rw [htrim] at heq hlast
      have hfeed : rest.flatten ≠ [] → '\n' ∈ trail := fun hrest =>
        feed_mem_trail (fun _ hc => hlast hc) (List.cons_ne_nil _ _)
          (heq ▸ hline fun hnil => hrest (by rw [hnil]; rfl))
      have hbehind : Trivia false ((body ++ (trail ++ rest.flatten)).dropWhile
          fun c => !Text.isLineBreak c) rest.flatten :=
        trivia_behindLine (trivia_of_isClearWithin hclear htrail hfeed) htrail hfeed
      rw [List.flatten_cons, Text.byteSize_append, ← Nat.add_assoc] at hsize
      have hflat : (line :: rest).flatten =
          lead ++ '/' :: '/' :: (body ++ (trail ++ rest.flatten)) := by
        rw [List.flatten_cons, heq]
        simp
      rw [hflat] at trivia
      refine ⟨.outside ((trivia.trans (Trivia.blanks hlead _)).trans
        ((Trivia.restOfLine _).trans hbehind)), .intro trivia hlead hbehind ?_ hsize⟩
      rw [← hflat, List.flatten_cons, Text.byteSize_append, ← Nat.add_assoc]
      exact hsize

theorem directives_add (s : DirectiveSet) (d : Directive) :
    (s.add d).directives = s.directives ++ [d] := by
  unfold add
  dsimp only
  split <;> rfl

theorem trimChars_of_ofLine? {line : List Char} (h : (Directive.ofLine? line).isSome = true) :
    ∃ body, Text.trimChars line = '/' :: '/' :: body := by
  unfold Directive.ofLine? at h
  split at h
  · rename_i body heq
    rw [Text.trimChars, heq]
    exact ⟨_, Text.dropEndWhile_append_cons (by decide) ['/'] body⟩
  · cases h

/-- A directive that is read ends behind the place where reading goes on. -/
theorem offset_lt_of_mem_readLines {d : Directive} (lines : List (List Char)) (offset : Nat)
    (inComment : Bool) (s : DirectiveSet)
    (hmem : d ∈ (readLines offset inComment s lines).directives) :
    d ∈ s.directives ∨ offset < d.span.stop := by
  induction lines generalizing offset inComment s with
  | nil => exact .inl hmem
  | cons line rest ih =>
      have passed {inComment : Bool} {s : DirectiveSet}
          (hmem : d ∈ (readLines (offset + Text.byteSize line) inComment s rest).directives) :
          d ∈ s.directives ∨ offset < d.span.stop :=
        (ih _ _ _ hmem).imp_right (Nat.le_add_right _ _).trans_lt
      unfold readLines at hmem
      dsimp only at hmem
      split at hmem
      · exact passed hmem
      · split at hmem
        · exact passed hmem
        · rename_i hblank
          split at hmem
          · rcases passed hmem with hadded | hlt
            · rw [directives_add, List.mem_append, List.mem_singleton] at hadded
              refine hadded.imp_right ?_
              rintro rfl
              have hne : line ≠ [] := by
                rintro rfl
                exact hblank rfl
              exact Nat.lt_add_of_pos_right (Text.byteSize_pos hne)
            · exact .inr hlt
          · split at hmem
            · exact passed hmem
            · exact passed hmem
            · exact .inl hmem

/-- Where the lines up to a directive are tidy, reading them keeps to what trivia leads to, so the
directive is a line comment. -/
theorem findsComment_of_mem_readLines {atStart : Bool} {cs : List Char} {size : Nat}
    {d : Directive} (lines : List (List Char)) (offset : Nat) (inComment : Bool) (s : DirectiveSet)
    (hlines : lines.Pairwise fun line _ => line.getLast? = some '\n')
    (htidy : isTidy inComment (linesTo (d.span.stop - offset) lines) = true)
    (h : Reaches atStart cs inComment lines)
    (hsize : offset + Text.byteSize lines.flatten = size)
    (hmem : d ∈ (readLines offset inComment s lines).directives) :
    d ∈ s.directives ∨ FindsComment atStart cs size d.span := by
  induction lines generalizing offset inComment s with
  | nil => exact .inl hmem
  | cons line rest ih =>
      obtain ⟨hline, hrest⟩ := List.pairwise_cons.mp hlines
      have hline : rest ≠ [] → line.getLast? = some '\n' := fun hne =>
        hline _ (List.head_mem hne)
      have hnext : offset + Text.byteSize line + Text.byteSize rest.flatten = size := by
        rw [← hsize, List.flatten_cons, Text.byteSize_append, Nat.add_assoc]
      rcases offset_lt_of_mem_readLines _ _ _ _ hmem with hold | hlt
      · exact .inl hold
      rw [linesTo, if_neg (Nat.sub_ne_zero_of_lt hlt), Nat.sub_sub] at htidy
      unfold readLines at hmem
      unfold isTidy at htidy
      dsimp only at hmem htidy
      cases inComment with
      | true =>
          obtain ⟨hclear, htidy⟩ := Bool.and_eq_true_iff.mp htidy
          exact ih _ _ _ hrest htidy (h.comment hline hclear) hnext hmem
      | false =>
          rw [if_neg Bool.false_ne_true] at hmem htidy
          split at hmem
          · rename_i hblank
            rw [List.isEmpty_iff] at hblank
            rw [hblank] at htidy
            exact ih _ _ _ hrest htidy (h.blank hblank) hnext hmem
          · split at hmem
            · rename_i name value hdirective
              obtain ⟨body, htrim⟩ := trimChars_of_ofLine? (by rw [hdirective]; rfl)
              rw [htrim] at htidy
              obtain ⟨hclear, htidy⟩ := Bool.and_eq_true_iff.mp htidy
              obtain ⟨hreach, hfinds⟩ := h.lineComment hline htrim hclear hsize
              rcases ih _ _ _ hrest htidy hreach hnext hmem with hmem | hfound
              · rw [directives_add, List.mem_append, List.mem_singleton] at hmem
                rcases hmem with hmem | rfl
                · exact .inl hmem
                · exact .inr hfinds
              · exact .inr hfound
            · split at hmem
              · rename_i body htrim
                rw [htrim] at htidy
                obtain ⟨hclear, htidy⟩ := Bool.and_eq_true_iff.mp htidy
                exact ih _ _ _ hrest htidy (h.lineComment hline htrim hclear hsize).1 hnext hmem
              · rename_i body htrim
                rw [htrim] at htidy
                obtain ⟨hclear, htidy⟩ := Bool.and_eq_true_iff.mp htidy
                exact ih _ _ _ hrest htidy (h.opening hline htrim hclear) hnext hmem
              · exact .inl hmem

/-- A line comment in a range of the text, with only blanks before it there. -/
structure IsLineComment (text : String) (span : Span) (c : Comment) : Prop where
  line : c.isBlock = false
  start_le : span.start ≤ c.start
  start_lt : c.start < c.stop
  stop_le : c.stop ≤ span.stop
  blank : (Text.slice text span.start c.start).toList.all Text.isBlank = true

/-- Where a scanner is can be told from what is left. -/
theorem stop_eq {text : String} {t : Scanner} {pos : Nat} {cs : List Char}
    (h : t.cursor.Sound text) (hr : t.cursor.rest = cs)
    (hsize : pos + Text.byteSize cs = text.utf8ByteSize) : t.stop = pos := by
  have := h.offset_add
  rw [hr] at this
  rw [Scanner.stop]
  omega

theorem FindsComment.scan {text : String} {span : Span}
    (h : FindsComment true text.toList text.utf8ByteSize span) :
    (∃ c ∈ (Scanner.ofString text).scan.commentsRev, IsLineComment text span c) ∧
      span.stop ≤ (Scanner.ofString text).scan.start := by
  obtain @⟨lead, body, after, before, blank, behind, start, stop⟩ := h
  have hsound : (Scanner.ofString text).cursor.Sound text := Cursor.sound_ofString text
  -- The scanner comes to the line, to the comment on it, behind the comment and behind the line.
  obtain ⟨t, ht, hrest⟩ := Scanner.exists_skips before (Scanner.ofString text) rfl (fun _ => rfl)
    nofun
  obtain ⟨u, hu, hslash⟩ := Scanner.exists_skips (Trivia.blanks blank _) t hrest nofun ht.fresh
  have hcomment := Scanner.skips_skipLineComment hslash hu.fresh
  have hleft : u.skipLineComment.cursor.rest = body.dropWhile fun c => !Text.isLineBreak c := by
    rw [Scanner.rest_skipLineComment, hslash]
    rfl
  obtain ⟨v, hv, hafter⟩ := Scanner.exists_skips behind u.skipLineComment hleft nofun hcomment.fresh
  have hsoundT := ht.passes.sound hsound
  have hsoundU := hu.passes.sound hsoundT
  have hsoundV := hv.passes.sound (hcomment.passes.sound hsoundU)
  have hstart : t.stop = span.start := stop_eq hsoundT hrest start
  have hlead : u.stop = span.start + Text.byteSize lead :=
    stop_eq hsoundU hslash (by rw [Nat.add_assoc, ← Text.byteSize_append]; exact start)
  have hstop : v.stop = span.stop := stop_eq hsoundV hafter stop
  obtain ⟨hnoted, hle⟩ := Scanner.Skips.scan (s := Scanner.ofString text) hsound
    (((ht.trans hu).trans hcomment).trans hv)
  obtain ⟨c, hc, hline, hcstart, hcstop⟩ := Scanner.exists_comment_skipLineComment hu.fresh
  have hlt : u.stop < u.skipLineComment.stop := by
    refine hcomment.passes.stop_lt ?_
    rw [Scanner.rest_skipLineComment, hslash]
    exact length_dropWhile_lt _ (by decide)
  refine ⟨⟨c, hnoted.subset (hv.passes.comments.subset hc), hline, ?_, ?_, ?_, ?_⟩, hstop ▸ hle⟩
  · rw [hcstart, hlead]
    exact Nat.le_add_right _ _
  · rw [hcstart, hcstop]
    exact hlt
  · rw [hcstop, ← hstop]
    exact hv.passes.stop_le
  · have hsplit := hsoundT.split
    rw [hrest, ← List.append_assoc] at hsplit
    have hslice := Text.slice_of_split text _ _ _ hsplit
    rw [Text.byteSize_reverse, ← hsoundT.offset_eq] at hslice
    rw [hcstart, hlead, ← hstart, Scanner.stop, hslice, String.toList_ofList, List.all_eq_true]
    exact blank

end DirectiveSet

namespace TokenStream

theorem commentsRev_next (t : TokenStream) :
    t.scanner.scan.commentsRev <:+ t.next.scanner.commentsRev :=
  (resolve_rereads { t with scanner := t.scanner.scan }).comments

theorem start_next (t : TokenStream) : t.next.scanner.start = t.scanner.scan.start := by
  have h := (resolve_rereads { t with scanner := t.scanner.scan }).tokenStart
  exact congrArg Cursor.offset h

/-- Comments that were noted stay noted. -/
theorem comments_iterate (t : TokenStream) (n : Nat) :
    t.scanner.commentsRev <:+ (next^[n] t).scanner.commentsRev := by
  induction n generalizing t with
  | zero => exact List.suffix_rfl
  | succ n ih =>
      rw [Function.iterate_succ_apply]
      exact (next_spec t).1.comments.trans (ih t.next)

/-- No token starts before the first one. -/
theorem Yields.start_le {lines : Text.LineMap} {t : TokenStream} {tokens : List Token}
    (h : Yields lines t tokens) : ∀ token ∈ tokens, t.next.scanner.start ≤ token.span.start := by
  induction h with
  | done =>
      intro token hmem
      exact absurd hmem List.not_mem_nil
  | @step t tokens _ _ ih =>
      intro token hmem
      have hle := (next_spec t).2.start_le_stop
      have hnext := (next_spec t.next).1.stop_le_start
      rcases List.mem_cons.mp hmem with rfl | hmem
      · exact Nat.le_refl t.next.scanner.start
      · exact (hle.trans hnext).trans (ih token hmem)

end TokenStream

/-- A directive with tidy lines up to its own is a line comment that the scanner notes at the same
place and keeps, and all tokens come behind the line. -/
theorem directives_are_comments {text : String} {d : Directive}
    (hd : d ∈ (DirectiveSet.ofString text).directives)
    (htidy : DirectiveSet.isTidy false
      (DirectiveSet.linesTo d.span.stop (Text.lines text.toList)) = true) :
    (∃ c, DirectiveSet.IsLineComment text d.span c ∧
      ∀ n, c ∈ (TokenStream.next^[n + 1] (TokenStream.ofString text)).scanner.comments) ∧
    ∀ token ∈ (Token.scanAll text).1, d.span.stop ≤ token.span.start := by
  have hflat := Text.flatten_lines text.toList
  have hfinds : DirectiveSet.FindsComment true text.toList text.utf8ByteSize d.span := by
    refine (DirectiveSet.findsComment_of_mem_readLines _ 0 false {} (Text.pairwise_lines _) htidy
      (.outside ?_) ?_ hd).resolve_left (List.not_mem_nil)
    · rw [hflat]
      exact .refl _ _
    · rw [hflat, Nat.zero_add, Text.byteSize_toList]
  obtain ⟨⟨c, hc, hcomment⟩, hle⟩ := hfinds.scan
  refine ⟨⟨c, hcomment, fun n => ?_⟩, fun token hmem => ?_⟩
  · rw [Function.iterate_succ_apply, Scanner.comments, List.mem_reverse]
    have hkept := (TokenStream.ofString text).next.comments_iterate n
    exact (TokenStream.commentsRev_next _).trans hkept |>.subset hc
  · refine hle.trans ?_
    have := (scanAll_yields text).start_le token hmem
    rwa [TokenStream.start_next] at this

theorem directives_are_comments_target :
    let text := "/* a\n b */ /* c */ // d\n\t// @target: es5\r\n/* e */ let x;\n"
    let d : Directive := ⟨"target", "es5", ⟨24, 42⟩⟩
    (∃ c, DirectiveSet.IsLineComment text d.span c ∧
      ∀ n, c ∈ (TokenStream.next^[n + 1] (TokenStream.ofString text)).scanner.comments) ∧
    ∀ token ∈ (Token.scanAll text).1, d.span.stop ≤ token.span.start :=
  directives_are_comments (by decide +kernel) (by decide +kernel)

/-- A line that starts with a comment counts as a comment though code follows on it, and a line
goes on behind a carriage return, which ends the comment. -/
theorem directive_behind_code :
    (∃ d ∈ (DirectiveSet.ofString "/* a */ x\n// @target: es5\n").directives,
      ∃ token ∈ (Token.scanAll "/* a */ x\n// @target: es5\n").1,
        token.span.stop ≤ d.span.start) ∧
    ∃ d ∈ (DirectiveSet.ofString "// @target: es5\rx\n").directives,
      ∃ token ∈ (Token.scanAll "// @target: es5\rx\n").1,
        d.span.start ≤ token.span.start ∧ token.span.stop ≤ d.span.stop := by
  decide +kernel

end Erasure
