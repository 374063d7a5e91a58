import Erasure.Proofs.Text.Lines
import Erasure.Proofs.Token.Spelling

/-!
Names stand apart. Where a token ends without a lexical error, no name starts right behind a
character that could go on with one: names and numbers take all such characters, and other tokens
end with a character that stands in no name. Nor is the place in the text lost, as it is only behind
a stray escape, which is an error.
-/

namespace Erasure

/-- Behind a character that could go on with a name, no name starts. -/
def Cursor.Apart (c : Cursor) : Prop :=
  c.before.head?.any Text.isIdentifierPart = true →
    ∀ x ∈ c.rest.head?, Text.isIdentifierStart x = false

namespace Cursor

theorem Apart.of_rest {c : Cursor} (h : ∀ x ∈ c.rest.head?, Text.isIdentifierStart x = false) :
    c.Apart := fun _ => h

theorem Apart.of_before {c : Cursor} {x : Char} (h : c.before.head? = some x)
    (hx : Text.isIdentifierPart x = false) : c.Apart := by
  intro hbefore
  rw [h, Option.any_some, hx] at hbefore
  cases hbefore

theorem Apart.of_nil {c : Cursor} (h : c.rest = []) : c.Apart :=
  .of_rest (by rw [h]; exact nofun)

/-- Some characters are passed over, of which the last one stands in no name. -/
theorem Apart.advance {c : Cursor} (word : List Char) {rest : List Char}
    (hr : c.rest = word ++ rest) {x : Char} (hlast : word.getLast? = some x)
    (hx : Text.isIdentifierPart x = false) : (c.advance word.length).Apart := by
  refine .of_before (x := x) ?_ hx
  rw [before_advance, hr, List.take_left' rfl, List.head?_append, List.head?_reverse, hlast]
  rfl

end Cursor

namespace Scanner

open Cursor

theorem Round.apart {s t : Scanner} (h : Round s t) : t.cursor.Apart := by
  cases h with
  | @lineBreak c cs hr hc =>
      exact .advance [c] hr rfl (Text.isIdentifierPart_of_isLineBreak hc)
  | @blank c cs hr hc =>
      exact .advance [c] hr rfl (Text.isIdentifierPart_of_isInlineBlank hc)
  | shebang =>
      refine .of_rest fun x hx => ?_
      rw [Cursor.rest_skipWhile] at hx
      have hbreak : x = '\n' ∨ x = '\r' := by
        simpa [or_iff_not_imp_left] using not_of_mem_head?_dropWhile hx
      rcases hbreak with rfl | rfl <;> decide
  | lineComment =>
      refine .of_rest fun x hx => ?_
      rw [rest_skipLineComment] at hx
      exact Text.isIdentifierStart_of_isLineBreak (by simpa using not_of_mem_head?_dropWhile hx)
  | @blockComment cs hr =>
      cases hlen : blockCommentLength? cs with
      | none =>
          refine .of_nil ?_
          rw [rest_skipBlockComment, hr]
          simp [hlen]
      | some n =>
          obtain ⟨body, heq, hlength, -⟩ := blockCommentLength?_eq_some hlen
          have hcursor : s.skipBlockComment.cursor = s.cursor.advance (n + 2) := by
            rw [cursor_skipBlockComment, hr]
            simp [hlen]
          have hword : s.cursor.rest = ('/' :: '*' :: (body ++ ['*']) ++ ['/']) ++ cs.drop n := by
            rw [hr]
            simpa using heq
          rw [hcursor, show n + 2 = ('/' :: '*' :: (body ++ ['*']) ++ ['/']).length by
            simp [← hlength]]
          exact .advance _ hword (by rw [List.getLast?_append]; rfl) (x := '/') (by decide)

theorem apart_beforeToken {s : Scanner} (h : s.cursor.Apart) : s.beforeToken.cursor.Apart :=
  skipTrivia_induction (P := fun t => t.cursor.Apart) (fun _ _ hround _ => hround.apart) _ h

theorem head?_before_advance {c : Cursor} {x : Char} {cs : List Char} (hr : c.rest = x :: cs) :
    (c.advance 1).before.head? = some x := by
  rw [before_advance, hr]
  rfl

theorem errorsRev_unterminated_ne (s : Scanner) (m : Message) :
    (s.unterminated m).errorsRev ≠ [] := errorsRev_error_ne s m _ _

theorem length_advance {s : Scanner} {c : Char} {cs : List Char} {n : Nat}
    (hr : s.cursor.rest = c :: cs) (hn : 1 ≤ n) :
    (s.advance n).cursor.rest.length < s.cursor.rest.length :=
  ((passes_advance s n).mono hn).length_lt (by rw [hr]; exact List.cons_ne_nil c cs)

theorem length_readEscape {s : Scanner} {c : Char} {cs : List Char} (hr : s.cursor.rest = c :: cs)
    (value : List Char) : (s.readEscape value).1.cursor.rest.length < s.cursor.rest.length :=
  (passes_readEscape s value).length_lt (by rw [hr]; exact List.cons_ne_nil c cs)

/-- A string without errors ends with its quote. -/
theorem closed_readString {s : Scanner} {quote : Char} {fuel : Nat} {value : List Char}
    (hfuel : s.cursor.rest.length < fuel)
    (he : (s.readString quote fuel value).errorsRev = []) :
    (s.readString quote fuel value).cursor.before.head? = some quote := by
  induction fuel generalizing s value with
  | zero => exact absurd hfuel (Nat.not_lt_zero _)
  | succ fuel ih =>
      have hgo {t : Scanner} (h : t.cursor.rest.length < s.cursor.rest.length) :
          t.cursor.rest.length < fuel := by omega
      revert he
      unfold readString
      split
      · exact fun he => absurd he (errorsRev_unterminated_ne s _)
      · rename_i c cs hr
        split
        · rename_i hc
          exact fun _ => hc ▸ head?_before_advance hr
        · split
          · exact ih (hgo (length_readEscape hr value))
          · split
            · exact fun he => absurd he (errorsRev_unterminated_ne s _)
            · exact ih (hgo (length_advance hr le_rfl))

/-- A piece of a template without errors ends with its delimiter. -/
theorem closed_readTemplate {s : Scanner} {whole part : TokenKind} {fuel : Nat}
    {value : List Char} (hfuel : s.cursor.rest.length < fuel)
    (he : (s.readTemplate whole part fuel value).errorsRev = []) :
    (s.readTemplate whole part fuel value).cursor.Apart := by
  induction fuel generalizing s value with
  | zero => exact absurd hfuel (Nat.not_lt_zero _)
  | succ fuel ih =>
      have hgo {t : Scanner} (h : t.cursor.rest.length < s.cursor.rest.length) :
          t.cursor.rest.length < fuel := by omega
      revert he
      unfold readTemplate
      split
      · exact fun he => absurd he (errorsRev_unterminated_ne s _)
      · rename_i c cs hr
        split
        · rename_i hc
          subst hc
          exact fun _ => .advance ['\x60'] hr rfl (by decide)
        · split
          · rename_i hopen
            obtain ⟨rfl, hbrace⟩ := by simpa using hopen
            obtain ⟨ds, rfl⟩ := List.head?_eq_some_iff.mp hbrace
            exact fun _ => .advance ['$', '\x7b'] hr rfl (by decide)
          · split
            · exact ih (hgo (length_readEscape hr value))
            · split
              · exact ih (hgo (length_advance hr (by split <;> decide)))
              · exact ih (hgo (length_advance hr le_rfl))

end Scanner

/-- A name without errors ends where none starts. -/
theorem ScannedName.stops_read {fuel : Nat} {w : ScannedName} (hfuel : w.cursor.rest.length < fuel)
    (h : (read fuel w).invalidAt? = none) :
    ∀ x ∈ (read fuel w).cursor.rest.head?, Text.isIdentifierStart x = false := by
  induction fuel generalizing w with
  | zero => exact absurd hfuel (Nat.not_lt_zero _)
  | succ fuel ih =>
      rcases read_succ fuel w with hend | ⟨v, hv, heq⟩
      · generalize read (fuel + 1) w = v at *
        cases hend with
        | other hstop =>
            intro x hx
            have haccepts := hstop x hx
            unfold accepts at haccepts
            split at haccepts
            · exact haccepts
            · exact Text.isIdentifierStart_eq_false haccepts
        | unreadable => cases h
        | rejected => cases h
      · rw [heq] at h ⊢
        refine ih ?_ h
        cases hv with
        | plain hr =>
            rw [hr] at hfuel
            show w.cursor.next.rest.length < fuel
            rw [Cursor.rest_next, hr]
            exact Nat.lt_of_succ_lt_succ hfuel
        | escape hr hesc =>
            have hpos := escape?_pos hesc
            rw [hr, List.length_cons] at hfuel
            rw [Cursor.rest_advance, List.length_drop, hr, List.length_cons]
            omega

namespace Scanner

theorem apart_readName {s : Scanner} (h : s.Placed) (he : s.readName.1.errorsRev = []) :
    s.readName.1.cursor.Apart := by
  have hvalid := invalidAt_readName he
  refine .of_rest ?_
  rw [cursor_readName]
  rw [readName_snd] at hvalid ⊢
  exact ScannedName.stops_read (Nat.lt_succ_of_le h.length_le) hvalid

theorem apart_scanName {s : Scanner} (h : s.Placed) (he : s.scanName.errorsRev = []) :
    s.scanName.cursor.Apart := by
  obtain ⟨-, -, -, -, herrors, hcursor⟩ := scanName_frame s
  rw [hcursor]
  exact apart_readName h (herrors ▸ he)

theorem apart_scanPrivateName {s : Scanner} (h : s.Placed)
    (he : s.scanPrivateName.errorsRev = []) : s.scanPrivateName.cursor.Apart := by
  have hname := apart_readName ((passes_advance s 1).placed h)
  revert he
  unfold scanPrivateName
  dsimp only
  split
  · split
    · exact hname
    · split <;> exact hname
  · exact fun he => absurd he (errorsRev_error_ne s _ _ _)

theorem apart_scanNumber {s : Scanner} (he : s.scanNumber.errorsRev = []) :
    s.scanNumber.cursor.Apart := by
  have checked (t : Scanner) (start length : Nat) :
      (if t.cursor.rest.head?.any Text.isIdentifierStart then
        t.error .identifierAfterNumber start length else t).errorsRev = [] →
      (if t.cursor.rest.head?.any Text.isIdentifierStart then
        t.error .identifierAfterNumber start length else t).cursor.Apart := by
    split
    · exact fun he => absurd he (errorsRev_error_ne t _ _ _)
    · rename_i hend
      refine fun _ => .of_rest fun x hx => ?_
      rw [Option.mem_def.mp hx] at hend
      simpa using hend
  exact checked _ _ _ he

theorem apart_punctuator {c : Cursor} {kind : TokenKind} {n : Nat}
    (h : TokenKind.punctuator? c.rest = some (kind, n)) : (c.advance n).Apart := by
  have table : ∀ p ∈ TokenKind.scannedPunctuators,
      p.1.getLast?.any (fun x => !Text.isIdentifierPart x) = true := by
    decide
  unfold TokenKind.punctuator? at h
  obtain ⟨p, hp, heq⟩ := Option.map_eq_some_iff.mp h
  cases heq
  have hfits := List.find?_some hp
  rw [Bool.and_eq_true, List.isPrefixOf_iff_prefix] at hfits
  obtain ⟨⟨rest, hr⟩, -⟩ := hfits
  obtain ⟨x, hlast, hx⟩ := (Option.any_eq_true _ _).mp (table p (List.mem_of_find?_eq_some hp))
  exact .advance _ hr.symm hlast (by simpa using hx)

theorem apart_scanToken {s : Scanner} {c : Char} {cs : List Char} (h : s.Placed)
    (hr : s.cursor.rest = c :: cs) (he : (s.scanToken c).errorsRev = []) :
    (s.scanToken c).cursor.Apart := by
  have hfuel : (s.advance 1).cursor.rest.length < s.remaining + 1 :=
    (length_advance hr le_rfl).trans (Nat.lt_succ_of_le h.length_le)
  revert he
  unfold scanToken
  split
  · rename_i hquote
    have hquote : Text.isIdentifierPart c = false := by
      rcases (by simpa using hquote : c = '"' ∨ c = '\'') with rfl | rfl <;> decide
    exact fun he => .of_before (closed_readString hfuel he) hquote
  · split
    · exact closed_readTemplate hfuel
    · split
      · exact apart_scanNumber
      · split
        · exact apart_scanPrivateName h
        · split
          · exact apart_scanName h
          · split
            · rename_i hpunct
              exact fun _ => apart_punctuator hpunct
            · exact fun he => absurd he (errorsRev_error_ne s _ _ _)

theorem apart_scan {s : Scanner} (h : s.Placed) (hs : s.cursor.Apart)
    (he : s.scan.errorsRev = []) : s.scan.tokenStart.Apart ∧ s.scan.cursor.Apart := by
  have hbefore := apart_beforeToken hs
  have hstart : s.scan.tokenStart = s.beforeToken.cursor := (keeps_scan s).tokenStart
  refine ⟨hstart ▸ hbefore, ?_⟩
  revert he
  rw [scan_eq]
  split
  · rename_i hnil
    exact fun _ => .of_nil hnil
  · rename_i c cs hr
    have hplaced : s.beforeToken.Placed := (beforeToken_spec s).1.placed h
    exact apart_scanToken (s := { s.beforeToken with tokenStart := s.beforeToken.cursor })
      hplaced hr

theorem apart_rescanGreater {s : Scanner} (h : s.cursor.Apart) :
    s.rescanGreater.cursor.Apart := by
  have table : ∀ p ∈ greaterOperators,
      p.1.getLast?.any (fun x => !Text.isIdentifierPart x) = true := by
    decide
  unfold rescanGreater
  split
  · split
    · rename_i hfind
      have hfront := List.find?_some hfind
      obtain ⟨rest, hr⟩ := List.isPrefixOf_iff_prefix.mp hfront
      obtain ⟨x, hlast, hx⟩ :=
        (Option.any_eq_true _ _).mp (table _ (List.mem_of_find?_eq_some hfind))
      exact .advance _ hr.symm hlast (by simpa using hx)
    · exact h
  · exact h

theorem apart_rescanSlash {s : Scanner} (h : s.cursor.Apart) : s.rescanSlash.cursor.Apart := by
  unfold rescanSlash
  split
  · refine .of_rest fun x hx => Text.isIdentifierStart_eq_false ?_
    simp only [finish, Cursor.rest_skipWhile] at hx
    exact not_of_mem_head?_dropWhile hx
  · exact h

theorem apart_rescanTemplate {s : Scanner} (hs : s.tokenStart.rest ≠ [] →
    s.tokenStart.Sound s.source) (h : s.cursor.Apart) (he : s.rescanTemplate.errorsRev = []) :
    s.rescanTemplate.cursor.Apart := by
  have hplaced : Placed { s with cursor := s.tokenStart.advance 1 } := by
    intro hr
    refine (hs fun hnil => hr ?_).advance 1
    rw [Cursor.rest_advance, hnil, List.drop_nil]
  revert he
  unfold rescanTemplate
  split
  · exact closed_readTemplate (Nat.lt_succ_of_le hplaced.length_le)
  · exact fun _ => h

/-- Without lexical errors, no name starts in the middle of one. -/
theorem Reaches.apart {source : String} {kept : List Scanner} {s : Scanner}
    (h : Reaches source kept s) (he : s.errorsRev = []) :
    s.tokenStart.Apart ∧ s.cursor.Apart := by
  let P (s : Scanner) : Prop := Sited source s ∧
    (s.errorsRev = [] → s.tokenStart.Apart ∧ s.cursor.Apart)
  have hstart : P (Scanner.ofString source) := by
    have hfirst : (Cursor.ofString source).Apart := fun hbefore => by cases hbefore
    exact ⟨.ofString source, fun _ => ⟨hfirst, hfirst⟩⟩
  have hscan (s : Scanner) (hs : P s) : P s.scan :=
    ⟨hs.1.scan, fun he => apart_scan hs.1.placed (hs.2 ((Extends.scan s).errorsRev_nil he)).2 he⟩
  have hreread {s t : Scanner} (hs : P s) (ht : Sited source t) (hr : Rereads s t)
      (happ : s.cursor.Apart → t.errorsRev = [] → t.cursor.Apart) : P t := by
    refine ⟨ht, fun he => ?_⟩
    obtain ⟨hbegin, hend⟩ := hs.2 ((Extends.of_rereads hr).errorsRev_nil he)
    exact ⟨hr.tokenStart ▸ hbegin, happ hend he⟩
  exact (h.invariant hstart hscan
    (fun s hs => hreread hs hs.1.rescanGreater (rescanGreater_rereads s)
      fun h _ => apart_rescanGreater h)
    (fun s hs => hreread hs hs.1.rescanSlash (rescanSlash_rereads s)
      fun h _ => apart_rescanSlash h)
    fun s hs => hreread hs hs.1.rescanTemplate (rescanTemplate_rereads s)
      (apart_rescanTemplate hs.1.sound_start)).1.2 he

end Scanner

/-- A stray escape ends the name that it starts in error. -/
theorem ScannedName.invalidAt_read_stray (fuel : Nat) (c : Cursor)
    (hs : strayEscape c.rest = true) :
    (read (fuel + 1) { cursor := c }).invalidAt? ≠ none := by
  obtain ⟨xs, hr⟩ := cons_of_strayEscape hs
  unfold strayEscape at hs
  split at hs
  · rename_i x n hesc
    have hacc : accepts { cursor := c } x = false := by
      simp only [Bool.and_eq_true, Bool.not_eq_true'] at hs
      exact hs.1
    rw [hr] at hesc
    unfold read
    simp only [hr, if_true, hesc, hacc]
    exact Option.some_ne_none _
  · cases hs

namespace Scanner

theorem errorsRev_readName_ne {s : Scanner} (hs : ScannedName.strayEscape s.cursor.rest = true) :
    s.readName.1.errorsRev ≠ [] := fun he =>
  ScannedName.invalidAt_read_stray s.remaining s.cursor hs
    (readName_snd s ▸ invalidAt_readName he)

/-- Where the text breaks off this is reported. -/
theorem errorsRev_scanToken_ne {s : Scanner} {c : Char} {cs : List Char}
    (hr : s.cursor.rest = c :: cs) (hb : breaksOff s.cursor.rest = true) :
    (s.scanToken c).errorsRev ≠ [] := by
  rw [hr] at hb
  unfold breaksOff at hb
  split at hb
  · rename_i heq
    cases heq
    have hrest : (s.advance 1).cursor.rest = cs := by
      simp only [advance, Cursor.rest_advance, hr, List.drop_one, List.tail_cons]
    obtain ⟨ds, rfl⟩ := ScannedName.cons_of_strayEscape hb
    have hne := errorsRev_readName_ne (s := s.advance 1) (by rw [hrest]; exact hb)
    have hstart : ((s.cursor.rest[1]?).any fun c => Text.isIdentifierStart c || c = '\\') = true :=
      by
      rw [hr]
      rfl
    show s.scanPrivateName.errorsRev ≠ []
    unfold scanPrivateName
    dsimp only
    rw [if_pos hstart]
    split
    · exact hne
    · split <;> exact hne
  · obtain ⟨ds, heq⟩ := ScannedName.cons_of_strayEscape hb
    cases heq
    have hne := errorsRev_readName_ne (s := s) (by rw [hr]; exact hb)
    show s.scanName.errorsRev ≠ []
    rwa [(scanName_frame s).2.2.2.2.1]

/-- The current token starts at a place of the text, which does not break off there. -/
structure Whole (s : Scanner) : Prop where
  sound : s.tokenStart.Sound s.source
  whole : breaksOff s.tokenStart.rest = false

theorem Whole.start_le_size {s : Scanner} (h : s.Whole) : s.start ≤ s.source.utf8ByteSize :=
  h.sound.offset_le

theorem Whole.rereads {s t : Scanner} (h : s.Whole) (hr : Rereads s t) : t.Whole := by
  obtain ⟨sound, whole⟩ := h
  rw [← hr.tokenStart] at sound whole
  rw [← hr.source] at sound
  exact ⟨sound, whole⟩

theorem whole_scan {s : Scanner} (hs : s.cursor.Sound s.source) (he : s.scan.errorsRev = []) :
    s.scan.Whole := by
  obtain ⟨hf, -⟩ := scan_spec s
  obtain ⟨n, hn⟩ := hf.tokenStart
  refine ⟨?_, ?_⟩
  · rw [hn, hf.source]
    exact hs.advance n
  · cases hb : breaksOff s.scan.tokenStart.rest with
    | false => rfl
    | true =>
        refine absurd he ?_
        have hstart : s.scan.tokenStart = s.beforeToken.cursor := (keeps_scan s).tokenStart
        rw [hstart] at hb
        rw [scan_eq]
        cases hr : s.beforeToken.cursor.rest with
        | nil =>
            rw [hr] at hb
            exact absurd hb (by decide)
        | cons c cs => exact errorsRev_scanToken_ne hr (hr ▸ hb)

theorem Whole.scan {s : Scanner} (h : s.Whole) (hr : s.Ready) (he : s.scan.errorsRev = []) :
    s.scan.Whole := by
  refine whole_scan ?_ he
  cases hr.stands with
  | atEnd _ _ cursor => exact cursor ▸ h.sound
  | within n _ _ _ _ cursor => exact cursor ▸ h.sound.advance n
  | broken _ _ broken => exact absurd (h.whole.symm.trans broken) Bool.false_ne_true

end Scanner
end Erasure
