import Erasure.Proofs.Token.Place

/-!
The scanner can be asked in any order to go on, to read the current token anew, and to return to a
place that was kept on the way. Wherever it stands then, the comments found so far lie one behind
the other before the current token, and returning to a place leads to the very state in which it was
kept.
-/

namespace Erasure

/-- The characters that open a comment. -/
def Comment.opening (c : Comment) : List Char := ['/', if c.isBlock then '*' else '/']

namespace Scanner

/-- Comments of a text, last one first: each lies behind the one before it and starts as a comment
does, and all of them end before an offset. -/
inductive Noted (source : String) : Nat → List Comment → Prop where
  | nil (limit : Nat) : Noted source limit []
  | cons {limit : Nat} {c : Comment} {cs : List Comment} (nonempty : c.start < c.stop)
      (stop_le : c.stop ≤ limit) (opened : c.opening <+: (c.text source).toList)
      (before : Noted source c.start cs) : Noted source limit (c :: cs)

namespace Noted

variable {source : String} {limit : Nat} {cs : List Comment}

theorem mono (h : Noted source limit cs) {m : Nat} (hm : limit ≤ m) : Noted source m cs := by
  cases h with
  | nil => exact .nil m
  | cons nonempty stop_le opened before => exact .cons nonempty (stop_le.trans hm) opened before

theorem stop_le (h : Noted source limit cs) : ∀ c ∈ cs, c.stop ≤ limit := by
  induction h with
  | nil => exact nofun
  | cons nonempty stop_le _ _ ih =>
      exact List.forall_mem_cons.mpr
        ⟨stop_le, fun c hc => (ih c hc).trans (nonempty.le.trans stop_le)⟩

theorem opened (h : Noted source limit cs) : ∀ c ∈ cs, c.opening <+: (c.text source).toList := by
  induction h with
  | nil => exact nofun
  | cons _ _ opened _ ih => exact List.forall_mem_cons.mpr ⟨opened, ih⟩

theorem nonempty (h : Noted source limit cs) : ∀ c ∈ cs, c.start < c.stop := by
  induction h with
  | nil => exact nofun
  | cons nonempty _ _ _ ih => exact List.forall_mem_cons.mpr ⟨nonempty, ih⟩

theorem pairwise (h : Noted source limit cs) : cs.Pairwise fun d c => c.stop ≤ d.start := by
  induction h with
  | nil => exact .nil
  | cons _ _ _ before ih => exact .cons before.stop_le ih

end Noted

/-- A comment is noted with the text that was passed over. -/
theorem noted_noteComment {s t : Scanner} {x : Char} {cs : List Char} {isBlock : Bool}
    (hs : s.cursor.Sound s.source) (hr : s.cursor.rest = '/' :: x :: cs)
    (hx : x = if isBlock then '*' else '/') (hp : Passes 0 s t)
    (hlt : t.cursor.rest.length + 2 ≤ s.cursor.rest.length)
    (hc : t.commentsRev = s.commentsRev) (h : Noted s.source s.stop s.commentsRev) :
    Noted s.source (t.noteComment s.cursor isBlock).stop
      (t.noteComment s.cursor isBlock).commentsRev := by
  obtain ⟨n, -, hn⟩ := hp.cursor
  obtain ⟨m, rfl⟩ : ∃ m, n = m + 2 := by
    rw [hn, Cursor.rest_advance, List.length_drop] at hlt
    exact ⟨n - 2, by omega⟩
  have hstop : s.stop < t.stop := hp.stop_lt (by omega)
  rw [stop, cursor_noteComment, ← stop]
  unfold noteComment
  split
  · rw [hc]
    exact h.mono hstop.le
  · refine .cons hstop le_rfl ?_ (hc ▸ h)
    have htext : Text.slice s.source s.stop t.stop =
        String.ofList (s.cursor.rest.take (m + 2)) := by
      rw [stop, stop, hn]
      exact hs.slice_advance _
    show ['/', if isBlock then '*' else '/'] <+: (Text.slice s.source s.stop t.stop).toList
    rw [htext, String.toList_ofList, hr, ← hx]
    exact List.prefix_append ['/', x] (cs.take m)

theorem noted_skipLineComment {s : Scanner} {cs : List Char} (hs : s.cursor.Sound s.source)
    (hr : s.cursor.rest = '/' :: '/' :: cs) (h : Noted s.source s.stop s.commentsRev) :
    Noted s.source s.skipLineComment.stop s.skipLineComment.commentsRev := by
  refine noted_noteComment hs hr rfl (passes_skipWhile s _) ?_ rfl h
  have hslash : Text.isLineBreak '/' = false := by decide
  have hle := (List.dropWhile_suffix (l := cs) fun c => !Text.isLineBreak c).length_le
  simp only [Cursor.rest_skipWhile, hr, List.length_cons]
  rw [List.dropWhile_cons_of_pos (by simp [hslash]), List.dropWhile_cons_of_pos (by simp [hslash])]
  omega

theorem noted_skipBlockComment {s : Scanner} {cs : List Char} (hs : s.cursor.Sound s.source)
    (hr : s.cursor.rest = '/' :: '*' :: cs) (h : Noted s.source s.stop s.commentsRev) :
    Noted s.source s.skipBlockComment.stop s.skipBlockComment.commentsRev := by
  obtain ⟨t, heq, hp, hc⟩ := skipBlockComment_eq s
  have hrest := rest_skipBlockComment s
  rw [heq, cursor_noteComment] at hrest
  rw [heq]
  refine noted_noteComment hs hr rfl hp ?_ hc h
  rw [hrest, hr]
  split <;> simp

theorem Round.noted {s t : Scanner} (hround : Round s t) (hs : s.Placed)
    (h : Noted s.source s.stop s.commentsRev) : Noted s.source t.stop t.commentsRev := by
  have hle := hround.passes.stop_le
  cases hround with
  | lineBreak => exact h.mono hle
  | blank => exact h.mono hle
  | shebang => exact h.mono hle
  | lineComment hr => exact noted_skipLineComment (hs (by rw [hr]; exact List.cons_ne_nil _ _)) hr h
  | blockComment hr =>
      exact noted_skipBlockComment (hs (by rw [hr]; exact List.cons_ne_nil _ _)) hr h

/-- The comments before a token end before it. -/
theorem noted_beforeToken {s : Scanner} (hs : s.Placed)
    (h : Noted s.source s.stop s.commentsRev) :
    Noted s.source s.beforeToken.stop s.beforeToken.commentsRev := by
  let P (t : Scanner) : Prop :=
    t.source = s.source ∧ t.Placed ∧ Noted s.source t.stop t.commentsRev
  have hround (t u : Scanner) (hround : Round t u) : P t → P u := by
    rintro ⟨hsource, hplaced, hnoted⟩
    refine ⟨hround.passes.source.trans hsource, hround.passes.placed hplaced, ?_⟩
    rw [← hsource] at hnoted ⊢
    exact hround.noted hplaced hnoted
  have hfirst : P { s with fullStart := s.stop, flags := {}, value := "" } := ⟨rfl, hs, h⟩
  exact (skipTrivia_induction hround (s.remaining + 1) hfirst).2.2

theorem commentsRev_ite {s t u : Scanner} (p : Prop) [Decidable p]
    (ht : t.commentsRev = s.commentsRev) (hu : u.commentsRev = s.commentsRev) :
    (if p then t else u).commentsRev = s.commentsRev := by
  split <;> assumption

theorem commentsRev_skipDigits (s : Scanner) (isDigit : Char → Bool) :
    (s.skipDigits isDigit).1.commentsRev = s.commentsRev := by
  unfold skipDigits
  dsimp only
  split <;> rfl

theorem commentsRev_requireDigits (s : Scanner) (isDigit : Char → Bool) (m : Message) :
    (s.requireDigits isDigit m).commentsRev = s.commentsRev := by
  unfold requireDigits
  dsimp only
  split
  · exact commentsRev_skipDigits s isDigit
  · exact (commentsRev_error _ _ _ _).trans (commentsRev_skipDigits s isDigit)

theorem commentsRev_skipFraction (s : Scanner) :
    s.skipFraction.1.commentsRev = s.commentsRev := by
  unfold skipFraction
  split
  · exact commentsRev_skipDigits (s.advance 1) _
  · rfl

theorem commentsRev_skipExponent (s : Scanner) :
    s.skipExponent.1.commentsRev = s.commentsRev := by
  unfold skipExponent
  split
  · split
    · refine (commentsRev_requireDigits _ _ _).trans ?_
      split <;> rfl
    · rfl
  · rfl

theorem commentsRev_skipNumber (s : Scanner) : s.skipNumber.1.commentsRev = s.commentsRev := by
  unfold skipNumber
  dsimp only
  split
  case h_7 =>
    rw [apply_ite Prod.fst]
    exact commentsRev_ite _ (commentsRev_skipDigits _ _)
      ((commentsRev_skipExponent _).trans
        ((commentsRev_skipFraction _).trans (commentsRev_skipDigits s _)))
  all_goals exact commentsRev_requireDigits _ _ _

theorem commentsRev_scanNumber (s : Scanner) : s.scanNumber.commentsRev = s.commentsRev := by
  have hnumber := commentsRev_skipNumber s
  have big (p : Prop) [Decidable p] :
      (if p then s.skipNumber.1.advance 1 else s.skipNumber.1).commentsRev = s.commentsRev :=
    commentsRev_ite p hnumber hnumber
  exact commentsRev_ite _ ((commentsRev_error _ _ _ _).trans (big _)) (big _)

theorem commentsRev_readEscape (s : Scanner) (value : List Char) :
    (s.readEscape value).1.commentsRev = s.commentsRev := by
  have invalid (t : Scanner) (ht : t.commentsRev = s.commentsRev) (start : Cursor) (length : Nat) :
      (t.invalidEscape start length value).1.commentsRev = s.commentsRev :=
    (commentsRev_error _ _ _ _).trans ht
  unfold readEscape
  dsimp only
  split
  · split
    case h_7 => split <;> [rfl; exact invalid (s.advance 2) rfl _ _]
    case h_8 => split <;> [rfl; exact invalid ((s.advance 2).advance _) rfl _ _]
    case h_9 => split <;> rfl
    all_goals rfl
  · rfl

theorem commentsRev_readString (s : Scanner) (quote : Char) (fuel : Nat) (value : List Char) :
    (s.readString quote fuel value).commentsRev = s.commentsRev := by
  induction fuel generalizing s value with
  | zero => rfl
  | succ fuel ih =>
      unfold readString
      split
      · exact commentsRev_error s _ _ _
      · split
        · rfl
        · split
          · exact (ih _ _).trans (commentsRev_readEscape s value)
          · split
            · exact commentsRev_error s _ _ _
            · exact ih _ _

theorem commentsRev_readTemplate (s : Scanner) (whole part : TokenKind) (fuel : Nat)
    (value : List Char) : (s.readTemplate whole part fuel value).commentsRev = s.commentsRev := by
  induction fuel generalizing s value with
  | zero => rfl
  | succ fuel ih =>
      unfold readTemplate
      split
      · exact commentsRev_error s _ _ _
      · split
        · rfl
        · split
          · rfl
          · split
            · exact (ih _ _).trans (commentsRev_readEscape s value)
            · split
              · exact ih _ _
              · exact ih _ _

theorem commentsRev_readName (s : Scanner) : s.readName.1.commentsRev = s.commentsRev := by
  unfold readName
  dsimp only
  split
  · exact commentsRev_error _ _ _ _
  · rfl

theorem commentsRev_scanName (s : Scanner) : s.scanName.commentsRev = s.commentsRev := by
  obtain ⟨-, -, -, h, -, -⟩ := scanName_frame s
  exact h.trans (commentsRev_readName s)

theorem commentsRev_scanPrivateName (s : Scanner) :
    s.scanPrivateName.commentsRev = s.commentsRev := by
  have hname := commentsRev_readName (s.advance 1)
  unfold scanPrivateName
  dsimp only
  split
  · split
    · exact hname
    · split <;> exact hname
  · exact commentsRev_error s _ _ _

theorem commentsRev_scanToken (s : Scanner) (c : Char) :
    (s.scanToken c).commentsRev = s.commentsRev := by
  unfold scanToken
  split
  · exact commentsRev_readString _ _ _ _
  · split
    · exact commentsRev_readTemplate _ _ _ _ _
    · split
      · exact commentsRev_scanNumber s
      · split
        · exact commentsRev_scanPrivateName s
        · split
          · exact commentsRev_scanName s
          · split
            · rfl
            · exact commentsRev_error s _ _ _

theorem commentsRev_scan (s : Scanner) : s.scan.commentsRev = s.beforeToken.commentsRev := by
  rw [scan_eq]
  split
  · rfl
  · exact commentsRev_scanToken _ _

theorem commentsRev_rescanGreater (s : Scanner) :
    s.rescanGreater.commentsRev = s.commentsRev := by
  unfold rescanGreater
  split
  · split <;> rfl
  · rfl

theorem commentsRev_rescanSlash (s : Scanner) : s.rescanSlash.commentsRev = s.commentsRev := by
  unfold rescanSlash
  split
  · dsimp only [finish]
    split
    · rfl
    · exact commentsRev_error _ _ _ _
  · rfl

theorem commentsRev_rescanTemplate (s : Scanner) :
    s.rescanTemplate.commentsRev = s.commentsRev := by
  unfold rescanTemplate
  split
  · exact commentsRev_readTemplate _ _ _ _ _
  · rfl

theorem cutTo_of_suffix {α : Type} {l m : List α} (h : l <:+ m) : cutTo l.length m = l := by
  cases l with
  | nil => rfl
  | cons x l => exact (List.suffix_iff_eq_drop.mp h).symm

/-- Of what was found in one state nothing is missing in the other one. -/
structure Extends (s t : Scanner) : Prop where
  source : t.source = s.source
  comments : s.commentsRev <:+ t.commentsRev
  errors : s.errorsRev <:+ t.errorsRev

namespace Extends

variable {s t u : Scanner}

theorem refl (s : Scanner) : Extends s s := ⟨rfl, List.suffix_rfl, List.suffix_rfl⟩

theorem trans (h : Extends s t) (h' : Extends t u) : Extends s u :=
  ⟨h'.source.trans h.source, h.comments.trans h'.comments, h.errors.trans h'.errors⟩

theorem scan (s : Scanner) : Extends s s.scan :=
  have h := (scan_spec s).1
  ⟨h.source, h.comments, h.errors⟩

theorem of_rereads (h : Rereads s t) : Extends s t := ⟨h.source, h.comments, h.errors⟩

theorem errorsRev_nil (h : Extends s t) (ht : t.errorsRev = []) : s.errorsRev = [] :=
  List.suffix_nil.mp (ht ▸ h.errors)

/-- Going back leads to the state in which the place was kept. -/
theorem restore_save (h : Extends s t) : t.restore s.save = s := by
  simp only [restore, save, cutTo_of_suffix h.comments, cutTo_of_suffix h.errors, h.source]

end Extends

/-- The states that can be reached from the start of a text, with the states in which a place was
kept on the way there, the last one first. Going back to a place forgets those kept after it. -/
inductive Reaches (source : String) : List Scanner → Scanner → Prop where
  | start : Reaches source [] (ofString source)
  | scan {kept : List Scanner} {s : Scanner} (h : Reaches source kept s) :
      Reaches source kept s.scan
  | rescanGreater {kept : List Scanner} {s : Scanner} (h : Reaches source kept s) :
      Reaches source kept s.rescanGreater
  | rescanSlash {kept : List Scanner} {s : Scanner} (h : Reaches source kept s) :
      Reaches source kept s.rescanSlash
  | rescanTemplate {kept : List Scanner} {s : Scanner} (h : Reaches source kept s) :
      Reaches source kept s.rescanTemplate
  | keep {kept : List Scanner} {s : Scanner} (h : Reaches source kept s) :
      Reaches source (s :: kept) s
  | restore {later earlier : List Scanner} {p s : Scanner}
      (h : Reaches source (later ++ p :: earlier) s) :
      Reaches source (p :: earlier) (s.restore p.save)

namespace Reaches

variable {source : String} {kept : List Scanner} {s : Scanner}

/-- Nothing that was found at a kept place was lost since. -/
theorem pairwise_extends (h : Reaches source kept s) :
    (s :: kept).Pairwise fun t p => Extends p t := by
  have step {kept : List Scanner} {s t : Scanner} (hst : Extends s t)
      (hs : (s :: kept).Pairwise fun t p => Extends p t) :
      (t :: kept).Pairwise fun t p => Extends p t := by
    obtain ⟨hnow, hkept⟩ := List.pairwise_cons.mp hs
    exact .cons (fun p hp => (hnow p hp).trans hst) hkept
  have again {kept : List Scanner} {s : Scanner}
      (hs : (s :: kept).Pairwise fun t p => Extends p t) :
      (s :: s :: kept).Pairwise fun t p => Extends p t :=
    .cons (List.forall_mem_cons.mpr ⟨.refl s, (List.pairwise_cons.mp hs).1⟩) hs
  induction h with
  | start => exact List.pairwise_singleton _ _
  | scan _ ih => exact step (.scan _) ih
  | rescanGreater _ ih => exact step (.of_rereads (rescanGreater_rereads _)) ih
  | rescanSlash _ ih => exact step (.of_rereads (rescanSlash_rereads _)) ih
  | rescanTemplate _ ih => exact step (.of_rereads (rescanTemplate_rereads _)) ih
  | keep _ ih => exact again ih
  | @restore later earlier p s _ ih =>
      obtain ⟨hnow, hkept⟩ := List.pairwise_cons.mp ih
      rw [(hnow p (List.mem_append_right _ List.mem_cons_self)).restore_save]
      exact again (hkept.sublist (List.sublist_append_right _ _))

theorem extends_kept (h : Reaches source kept s) : ∀ p ∈ kept, Extends p s :=
  (List.pairwise_cons.mp h.pairwise_extends).1

theorem restore_kept (h : Reaches source kept s) : ∀ p ∈ kept, s.restore p.save = p :=
  fun p hp => (h.extends_kept p hp).restore_save

/-- The states to which one can go back are states that are reached. -/
theorem of_kept (h : Reaches source kept s) {p : Scanner} (hp : p ∈ kept) :
    ∃ earlier, Reaches source earlier p := by
  have heq := h.restore_kept p hp
  obtain ⟨later, earlier, rfl⟩ := List.append_of_mem hp
  have hback := h.restore
  rw [heq] at hback
  exact ⟨p :: earlier, hback⟩

/-- What holds at the start and is kept by scanning and by reading anew holds in every state that
is reached, as in those to which one can go back. -/
theorem invariant {P : Scanner → Prop} (start : P (ofString source))
    (scan : ∀ s, P s → P s.scan) (rescanGreater : ∀ s, P s → P s.rescanGreater)
    (rescanSlash : ∀ s, P s → P s.rescanSlash)
    (rescanTemplate : ∀ s, P s → P s.rescanTemplate) (h : Reaches source kept s) :
    P s ∧ ∀ p ∈ kept, P p := by
  induction h with
  | start => exact ⟨start, List.forall_mem_nil _⟩
  | scan _ ih => exact ih.imp_left (scan _)
  | rescanGreater _ ih => exact ih.imp_left (rescanGreater _)
  | rescanSlash _ ih => exact ih.imp_left (rescanSlash _)
  | rescanTemplate _ ih => exact ih.imp_left (rescanTemplate _)
  | keep _ ih => exact ⟨ih.1, List.forall_mem_cons.mpr ih⟩
  | @restore later earlier p s h ih =>
      have hmem : ∀ q ∈ p :: earlier, q ∈ later ++ p :: earlier :=
        fun q => List.mem_append_right _
      rw [h.restore_kept p (hmem p List.mem_cons_self)]
      exact ⟨ih.2 p (hmem p List.mem_cons_self), fun q hq => ih.2 q (hmem q hq)⟩

end Reaches

/-- The token stands in the text, behind all that was found before it. -/
structure Sited (source : String) (s : Scanner) : Prop where
  source_eq : s.source = source
  /-- At the start there is no token yet. -/
  ready : s = ofString source ∨ s.Ready
  fullStart_le : s.fullStart ≤ s.start
  noted : Noted source s.start s.commentsRev

namespace Sited

variable {source : String} {s t : Scanner}

theorem ofString (source : String) : Sited source (ofString source) :=
  ⟨rfl, .inl rfl, le_rfl, .nil _⟩

theorem placed (h : Sited source s) : s.Placed := by
  rcases h.ready with rfl | hready
  · exact fun _ => Cursor.sound_ofString source
  · exact hready.placed

theorem sound_start (h : Sited source s) (hr : s.tokenStart.rest ≠ []) :
    s.tokenStart.Sound s.source := by
  rcases h.ready with rfl | hready
  · exact Cursor.sound_ofString source
  · exact hready.sound hr

theorem start_le_stop (h : Sited source s) : s.start ≤ s.stop := by
  rcases h.ready with rfl | hready
  · exact le_rfl
  · exact hready.start_le_stop

theorem scan (h : Sited source s) : Sited source s.scan := by
  have hf := (scan_spec s).1
  refine ⟨hf.source.trans h.source_eq, .inr (ready_scan h.placed), ?_, ?_⟩
  · rw [hf.fullStart]
    exact hf.stop_le_start
  · have hstart : s.scan.start = s.beforeToken.stop :=
      congrArg Cursor.offset (keeps_scan s).tokenStart
    rw [hstart, commentsRev_scan, ← h.source_eq]
    refine noted_beforeToken h.placed ?_
    rw [h.source_eq]
    exact h.noted.mono h.start_le_stop

/-- Reading anew, which does nothing at the start. -/
theorem reread (h : Sited source s) (hr : Rereads s t) (hc : t.commentsRev = s.commentsRev)
    (hfirst : s.token = .unknown → t = s) (hready : s.Ready → t.Ready) : Sited source t := by
  have hstart : t.start = s.start := congrArg Cursor.offset hr.tokenStart
  refine ⟨hr.source.trans h.source_eq, ?_, ?_, ?_⟩
  · rcases h.ready with rfl | hs
    · exact .inl (hfirst rfl)
    · exact .inr (hready hs)
  · rw [hr.fullStart, hstart]
    exact h.fullStart_le
  · rw [hstart, hc]
    exact h.noted

theorem rescanGreater (h : Sited source s) : Sited source s.rescanGreater :=
  h.reread (rescanGreater_rereads s) (commentsRev_rescanGreater s)
    (fun hk => by rw [Scanner.rescanGreater, hk]; rfl) Ready.rescanGreater

theorem rescanSlash (h : Sited source s) : Sited source s.rescanSlash :=
  h.reread (rescanSlash_rereads s) (commentsRev_rescanSlash s)
    (fun hk => by rw [Scanner.rescanSlash, hk]; rfl) Ready.rescanSlash

theorem rescanTemplate (h : Sited source s) : Sited source s.rescanTemplate :=
  h.reread (rescanTemplate_rereads s) (commentsRev_rescanTemplate s)
    (fun hk => by rw [Scanner.rescanTemplate, hk]; rfl) Ready.rescanTemplate

end Sited

theorem Reaches.sited {source : String} {kept : List Scanner} {s : Scanner}
    (h : Reaches source kept s) : Sited source s :=
  (h.invariant (P := Sited source) (.ofString source) (fun _ => Sited.scan)
    (fun _ => Sited.rescanGreater) (fun _ => Sited.rescanSlash) fun _ => Sited.rescanTemplate).1

/-- The current token stands behind the blanks before it and behind the comments found, which lie
one behind the other and start as comments do. -/
structure Orderly (s : Scanner) : Prop where
  fullStart_le_start : s.fullStart ≤ s.start
  start_le_stop : s.start ≤ s.stop
  ascending : s.comments.Pairwise fun c d => c.start < d.start
  disjoint : s.comments.Pairwise fun c d => c.stop ≤ d.start
  opened : ∀ c ∈ s.comments, c.opening <+: (c.text s.source).toList
  before_token : ∀ c ∈ s.comments, c.stop ≤ s.start

theorem Sited.orderly {source : String} {s : Scanner} (h : Sited source s) : s.Orderly := by
  have hdisjoint : s.comments.Pairwise fun c d => c.stop ≤ d.start :=
    List.pairwise_reverse.mpr h.noted.pairwise
  refine ⟨h.fullStart_le, h.start_le_stop, ?_, hdisjoint, ?_, ?_⟩
  · refine hdisjoint.imp_of_mem fun hc _ hle => ?_
    exact (h.noted.nonempty _ (List.mem_reverse.mp hc)).trans_le hle
  · rw [h.source_eq]
    exact fun c hc => h.noted.opened c (List.mem_reverse.mp hc)
  · exact fun c hc => h.noted.stop_le c (List.mem_reverse.mp hc)

/-- However it was reached, the scanner stands behind the comments it found, and from there it can
go back to each of the states in which a place was kept. -/
theorem reached_orderly {source : String} {kept : List Scanner} {s : Scanner}
    (h : Reaches source kept s) : s.Orderly ∧ ∀ p ∈ kept, s.restore p.save = p :=
  ⟨h.sited.orderly, h.restore_kept⟩

/-- A regular expression behind a comment is read anew, with a place kept before the comment. -/
theorem reached_orderly_regExp :
    let s := (ofString "a /*b*/ /c/").scan
    let t := s.scan.rescanSlash
    t.token = .regExpLiteral ∧ t.comments.length = 1 ∧ t.Orderly ∧ t.restore s.save = s := by
  intro s t
  have hreach : Reaches "a /*b*/ /c/" [s] t := .rescanSlash (.scan (.keep (.scan .start)))
  obtain ⟨horderly, hrestore⟩ := reached_orderly hreach
  exact ⟨by decide, by decide, horderly, hrestore s List.mem_cons_self⟩

/-- Names are never made by reading anew: the state is one that scanning leads to. -/
theorem Reaches.scan_of_isName {source : String} {kept : List Scanner} {s : Scanner}
    (h : Reaches source kept s) (hname : s.token.isName = true) :
    ∃ r : Scanner, r.source = source ∧ r.Placed ∧ s = r.scan := by
  let P (s : Scanner) : Prop := Sited source s ∧
    (s.token.isName = true → ∃ r : Scanner, r.source = source ∧ r.Placed ∧ s = r.scan)
  have anew {s t : Scanner} (hs : P s) (ht : Sited source t)
      (heq : t.token.isName = true → t = s) : P t :=
    ⟨ht, fun hn => heq hn ▸ hs.2 (heq hn ▸ hn)⟩
  have hunknown : TokenKind.isName .unknown = false := rfl
  have hfirst : P (Scanner.ofString source) :=
    ⟨.ofString source, fun hn => absurd (hunknown.symm.trans hn) Bool.false_ne_true⟩
  have hscan (s : Scanner) (hs : P s) : P s.scan :=
    ⟨hs.1.scan, fun _ => ⟨s, hs.1.source_eq, hs.1.placed, rfl⟩⟩
  exact (h.invariant hfirst hscan
    (fun s hs => anew hs hs.1.rescanGreater rescanGreater_of_isName)
    (fun s hs => anew hs hs.1.rescanSlash rescanSlash_of_isName)
    fun s hs => anew hs hs.1.rescanTemplate rescanTemplate_of_isName).1.2 hname

end Scanner
end Erasure
