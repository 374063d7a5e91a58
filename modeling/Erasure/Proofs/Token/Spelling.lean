import Erasure.Proofs.Token.Reached
import Erasure.Token.Stream

/-!
How names are spelled. Where no lexical error is found, an identifier stands for a text that can
stand as a name after a dot, with or without escapes, and a keyword stands for its own text, which
is that of the keyword.
-/

namespace Erasure

namespace ScannedName

theorem isIdentifier_ofList (c : Char) (cs : List Char) :
    Text.isIdentifier (String.ofList (c :: cs)) =
      (Text.isIdentifierStart c && cs.all Text.isIdentifierPart) := by
  rw [Text.isIdentifier, String.toList_ofList]

/-- The characters of a name so far, last one first. -/
def Forms (chars : List Char) : Prop :=
  chars ≠ [] → Text.isIdentifier (String.ofList chars.reverse) = true

/-- What is accepted goes on with the name. -/
theorem Forms.accept {w : ScannedName} (h : Forms w.chars) {x : Char} (hx : w.accepts x = true) :
    Forms (x :: w.chars) := by
  intro _
  unfold accepts at hx
  rw [List.reverse_cons]
  cases hrev : w.chars.reverse with
  | nil =>
      rw [List.reverse_eq_nil_iff.mp hrev] at hx
      rw [List.nil_append, isIdentifier_ofList, List.all_nil, Bool.and_true]
      exact hx
  | cons c cs =>
      have hne : w.chars ≠ [] := fun hnil => by rw [hnil] at hrev; cases hrev
      have hword := h hne
      rw [if_neg (by simpa using hne)] at hx
      rw [hrev, isIdentifier_ofList] at hword
      rw [List.cons_append, isIdentifier_ofList, List.all_append, List.all_cons, List.all_nil,
        Bool.and_true, hx, Bool.and_true]
      exact hword

/-- With or without escapes, the characters read make up a name. -/
theorem forms_read (fuel : Nat) {w : ScannedName} (h : Forms w.chars) :
    Forms (read fuel w).chars := by
  refine read_induction (P := fun w => Forms w.chars) (fun w v hv hw => ?_)
    (fun w v hv hw => ?_) fuel h
  · cases hv with
    | plain _ _ hx => exact hw.accept hx
    | escape _ _ hx => exact hw.accept hx
  · cases hv <;> exact hw

/-- A name with an escape in it remains one. -/
theorem escaped_read (fuel : Nat) {w : ScannedName} (h : w.escaped = true) :
    (read fuel w).escaped = true := by
  refine read_induction (P := fun w => w.escaped = true) (fun w v hv hw => ?_)
    (fun w v hv hw => ?_) fuel h
  · cases hv with
    | plain => exact hw
    | escape => rfl
  · cases hv <;> exact hw

theorem isIdentifierPart_of_accepts {w : ScannedName} {c : Char} (h : w.chars ≠ [])
    (hc : w.accepts c = false) : Text.isIdentifierPart c = false := by
  rw [accepts, if_neg (by simpa using h)] at hc
  exact hc

/-- A name without escapes has the characters of the text. It ends where the text does not go on as
a name does, or with an escape that was passed over in error. -/
theorem read_plain (fuel : Nat) {w : ScannedName} (h : (read fuel w).escaped = false)
    (hchars : (read fuel w).chars ≠ []) :
    ∃ n, (read fuel w).chars = (w.cursor.rest.take n).reverse ++ w.chars ∧
      ((read fuel w).cursor = w.cursor.advance n ∧
          (w.cursor.rest.length < fuel →
            ∀ c ∈ (read fuel w).cursor.rest.head?, Text.isIdentifierPart c = false) ∨
        (read fuel w).invalidAt? ≠ none ∧
          ∃ m, (read fuel w).cursor = w.cursor.advance m ∧ '\\' ∈ w.cursor.rest.take m) := by
  induction fuel generalizing w with
  | zero => exact ⟨0, rfl, .inl ⟨rfl, fun hlt => absurd hlt (Nat.not_lt_zero _)⟩⟩
  | succ fuel ih =>
      rcases read_succ fuel w with hend | ⟨v, hv, heq⟩
      · generalize read (fuel + 1) w = v at *
        cases hend with
        | other hstop =>
            exact ⟨0, rfl, .inl ⟨rfl, fun _ c hc =>
              isIdentifierPart_of_accepts hchars (hstop c hc)⟩⟩
        | unreadable hr =>
            have hne : w.chars ≠ [] := hchars
            refine ⟨0, rfl, .inl ⟨cursor_fail hne _, fun _ c hc => ?_⟩⟩
            rw [cursor_fail hne, hr, List.head?_cons, Option.mem_some_iff] at hc
            rw [← hc]
            decide
        | @rejected cs x n hr hesc =>
            refine ⟨0, rfl, .inr ⟨nofun, n, cursor_fail hchars _, ?_⟩⟩
            rw [hr, show n = n - 1 + 1 by have := escape?_pos hesc; omega, List.take_succ_cons]
            exact List.mem_cons_self
      · rw [heq] at h hchars ⊢
        cases hv with
        | @plain c cs hr =>
            have hrest : w.cursor.next.rest = cs := by rw [Cursor.rest_next, hr]; rfl
            obtain ⟨n, hread, hend⟩ := ih h hchars
            rw [hrest] at hread hend
            rw [hr]
            refine ⟨n + 1, by simpa using hread, ?_⟩
            rcases hend with ⟨hcursor, hstop⟩ | ⟨hinvalid, m, hcursor, hmem⟩
            · exact .inl ⟨hcursor, fun hlt => hstop (Nat.lt_of_succ_lt_succ hlt)⟩
            · exact .inr ⟨hinvalid, m + 1, hcursor, List.mem_cons_of_mem c hmem⟩
        | escape => exact absurd (escaped_read fuel rfl) (by rw [h]; exact Bool.false_ne_true)

end ScannedName

namespace Scanner

/-- The token spells what its kind says. -/
structure Spelled (s : Scanner) : Prop where
  identifier : s.token = .identifier → Text.isIdentifier s.value = true
  privateIdentifier : s.token = .privateIdentifier →
    ∃ name, Text.isIdentifier name = true ∧ s.value = "#" ++ name
  keyword : s.token.isKeyword = true →
    s.value = s.text ∧ TokenKind.ofKeyword? s.value = some s.token

theorem Spelled.of_not_isName {s : Scanner} (h : s.token.isName = false) : s.Spelled := by
  have hno {p : Prop} (hname : s.token.isName = true) : p := by
    rw [h] at hname
    cases hname
  refine ⟨fun hk => hno (by rw [hk]; rfl), fun hk => hno (by rw [hk]; rfl), fun hk => hno ?_⟩
  rw [TokenKind.isName, TokenKind.isIdentifierOrKeyword, hk, Bool.or_true, Bool.true_or]

theorem Spelled.of_identifier {s : Scanner} (hk : s.token = .identifier)
    (h : Text.isIdentifier s.value = true) : s.Spelled := by
  refine ⟨fun _ => h, fun heq => ?_, fun hkey => ?_⟩ <;> rw [hk] at *
  · cases heq
  · exact absurd hkey (by decide)

theorem Spelled.of_privateIdentifier {s : Scanner} {name : List Char}
    (hk : s.token = .privateIdentifier) (hv : s.value = String.ofList ('#' :: name))
    (h : Text.isIdentifier (String.ofList name) = true) : s.Spelled := by
  refine ⟨fun heq => ?_, fun _ => ⟨_, h, ?_⟩, fun hkey => ?_⟩
  · rw [hk] at heq
    cases heq
  · rw [hv, ← String.toList_inj]
    simp
  · rw [hk] at hkey
    exact absurd hkey (by decide)

theorem readName_snd (s : Scanner) :
    s.readName.2 = ScannedName.read (s.remaining + 1) { cursor := s.cursor } := by
  unfold readName
  dsimp only
  split <;> rfl

theorem cursor_readName (s : Scanner) : s.readName.1.cursor = s.readName.2.cursor := by
  unfold readName
  dsimp only
  split
  · exact cursor_error _ _ _ _
  · rfl

theorem errorsRev_error_ne (s : Scanner) (m : Message) (start length : Nat) :
    (s.error m start length).errorsRev ≠ [] := by
  unfold error
  dsimp only
  split
  · rename_i h
    rintro hnil
    rw [hnil] at h
    cases h
  · exact List.cons_ne_nil _ _

/-- A name that ends in error is reported. -/
theorem invalidAt_readName {s : Scanner} (h : s.readName.1.errorsRev = []) :
    s.readName.2.invalidAt? = none := by
  unfold readName at h ⊢
  dsimp only at h ⊢
  split at h
  · exact absurd h (errorsRev_error_ne _ _ _ _)
  · assumption

theorem isIdentifier_readName {s : Scanner} (h : s.readName.2.chars ≠ []) :
    Text.isIdentifier (String.ofList s.readName.2.chars.reverse) = true := by
  rw [readName_snd] at h ⊢
  exact ScannedName.forms_read _ (fun hnil => absurd rfl hnil) h

/-- A name without escapes, as `ScannedName.read_plain` has it. -/
theorem readName_plain {s : Scanner} (h : s.readName.2.escaped = false)
    (hchars : s.readName.2.chars ≠ []) :
    (∃ n, s.readName.2.chars.reverse = s.cursor.rest.take n ∧
        s.readName.1.cursor = s.cursor.advance n ∧
        (s.cursor.rest.length ≤ s.remaining →
          ∀ c ∈ s.readName.1.cursor.rest.head?, Text.isIdentifierPart c = false)) ∨
      s.readName.2.invalidAt? ≠ none ∧
        ∃ m, s.readName.1.cursor = s.cursor.advance m ∧ '\\' ∈ s.cursor.rest.take m := by
  rw [cursor_readName]
  rw [readName_snd] at h hchars ⊢
  obtain ⟨n, hread, hend⟩ := ScannedName.read_plain _ h hchars
  refine hend.imp_left fun ⟨hcursor, hstop⟩ =>
    ⟨n, ?_, hcursor, fun hle => hstop (Nat.lt_succ_of_le hle)⟩
  rw [hread, List.append_nil, List.reverse_reverse]

theorem readName_plain_of_no_errors {s : Scanner} (h : s.readName.2.escaped = false)
    (hchars : s.readName.2.chars ≠ []) (he : s.readName.1.errorsRev = []) :
    ∃ n, s.readName.2.chars.reverse = s.cursor.rest.take n ∧
      s.readName.1.cursor = s.cursor.advance n := by
  rcases readName_plain h hchars with ⟨n, hread, hcursor, -⟩ | ⟨hinvalid, -⟩
  · exact ⟨n, hread, hcursor⟩
  · exact absurd (invalidAt_readName he) hinvalid

theorem readName_frame (s : Scanner) :
    s.readName.1.source = s.source ∧ s.readName.1.tokenStart = s.tokenStart := by
  unfold readName
  dsimp only
  split
  · have hp := passes_error
      { s with cursor := (ScannedName.read (s.remaining + 1) { cursor := s.cursor }).cursor }
    exact ⟨(hp _ _ _).source, (hp _ _ _).tokenStart⟩
  · exact ⟨rfl, rfl⟩

/-- The text of a name reaches from the start of the token to where reading ended. -/
theorem text_readName {s : Scanner} {n : Nat} (hs : s.tokenStart.Sound s.source)
    (h : s.readName.1.cursor = s.tokenStart.advance n) :
    s.readName.1.text = String.ofList (s.tokenStart.rest.take n) := by
  obtain ⟨hsource, hstart⟩ := readName_frame s
  rw [text, start, stop, hsource, hstart, h]
  exact hs.slice_advance n

theorem Spelled.finish_name {s : Scanner} (h : Text.isIdentifier s.text = true) :
    (s.finish ((TokenKind.ofKeyword? s.text).getD .identifier)).Spelled := by
  cases hk : TokenKind.ofKeyword? s.text with
  | none => exact .of_identifier rfl h
  | some kind =>
      have hkey := ofKeyword?_isKeyword hk
      have hno {k : TokenKind} (hk : kind = k) (hnot : k.isKeyword = false) {p : Prop} : p := by
        rw [hk, hnot] at hkey
        cases hkey
      exact ⟨fun heq => hno heq rfl, fun heq => hno heq rfl, fun _ => ⟨rfl, hk⟩⟩

theorem spelled_scanName {s : Scanner} (hs : s.cursor.Sound s.source)
    (hstart : s.tokenStart = s.cursor) (he : s.scanName.errorsRev = []) : s.scanName.Spelled := by
  obtain ⟨-, -, -, -, herrors, -⟩ := scanName_frame s
  rw [herrors] at he
  unfold scanName
  dsimp only
  split
  · exact .of_not_isName rfl
  · rename_i hchars
    have hne : s.readName.2.chars ≠ [] := by simpa using hchars
    have hname := isIdentifier_readName hne
    split
    · exact .of_identifier rfl hname
    · rename_i hplain
      obtain ⟨n, hread, hcursor⟩ := readName_plain_of_no_errors (by simpa using hplain) hne he
      refine .finish_name ?_
      rw [text_readName (hstart ▸ hs) (hstart ▸ hcursor), hstart, ← hread]
      exact hname

theorem spelled_scanPrivateName {s : Scanner} {cs : List Char} (hs : s.cursor.Sound s.source)
    (hr : s.cursor.rest = '#' :: cs) (hstart : s.tokenStart = s.cursor)
    (he : s.scanPrivateName.errorsRev = []) : s.scanPrivateName.Spelled := by
  unfold scanPrivateName at he ⊢
  dsimp only at he ⊢
  split
  · rename_i hfirst
    rw [if_pos hfirst] at he
    split
    · exact .of_not_isName rfl
    · rename_i hchars
      rw [if_neg hchars] at he
      have hne : (s.advance 1).readName.2.chars ≠ [] := by simpa using hchars
      have hname := isIdentifier_readName hne
      split
      · exact .of_privateIdentifier rfl rfl hname
      · rename_i hplain
        rw [if_neg hplain] at he
        obtain ⟨n, hread, hcursor⟩ := readName_plain_of_no_errors (by simpa using hplain) hne he
        refine .of_privateIdentifier rfl ?_ hname
        have hcur : (s.advance 1).readName.1.cursor =
            (s.advance 1).tokenStart.advance (1 + n) := by
          rw [hcursor, ← Cursor.advance_advance]
          exact congrArg (fun c : Cursor => (c.advance 1).advance n) hstart.symm
        refine (text_readName (hstart ▸ hs) hcur).trans ?_
        have hrest : (s.advance 1).cursor.rest = cs := by
          simp only [advance, Cursor.rest_advance, hr, List.drop_one, List.tail_cons]
        rw [hread, hrest, show (s.advance 1).tokenStart.rest = '#' :: cs from hstart ▸ hr,
          Nat.add_comm, List.take_succ_cons]
  · exact .of_not_isName rfl

/-- A name was read at its place in the text. -/
theorem Reaches.named {source : String} {kept : List Scanner} {s : Scanner}
    (h : Reaches source kept s) (hname : s.token.isName = true) :
    ∃ b : Scanner, b.source = source ∧ b.cursor.Sound b.source ∧ b.tokenStart = b.cursor ∧
      ((∃ cs, b.cursor.rest = '#' :: cs) ∧ s = b.scanPrivateName ∨ s = b.scanName) := by
  obtain ⟨r, hsource, hplaced, rfl⟩ := h.scan_of_isName hname
  have hpasses := (beforeToken_spec r).1
  have hbefore : r.beforeToken.source = source := hpasses.source.trans hsource
  cases hr : r.beforeToken.cursor.rest with
  | nil =>
      have hend : r.scan.token = .endOfFile := by rw [scan_eq, hr]
      exact absurd hend (TokenKind.ne_of_isName hname).1
  | cons c cs =>
      have hsound : r.beforeToken.cursor.Sound r.beforeToken.source :=
        hpasses.placed hplaced (by rw [hr]; exact List.cons_ne_nil c cs)
      refine ⟨{ r.beforeToken with tokenStart := r.beforeToken.cursor }, hbefore, hsound, rfl, ?_⟩
      rw [scan_eq, hr] at hname ⊢
      rcases scanToken_of_isName hname with ⟨rfl, heq⟩ | ⟨-, heq⟩
      · exact .inl ⟨⟨cs, rfl⟩, heq⟩
      · exact .inr heq

theorem Reaches.spelled {source : String} {kept : List Scanner} {s : Scanner}
    (h : Reaches source kept s) (he : s.errorsRev = []) : s.Spelled := by
  cases hname : s.token.isName with
  | false => exact .of_not_isName hname
  | true =>
      obtain ⟨b, -, hsound, hstart, ⟨⟨cs, hr⟩, rfl⟩ | rfl⟩ := h.named hname
      · exact spelled_scanPrivateName hsound hr hstart he
      · exact spelled_scanName hsound hstart he

end Scanner

namespace TokenStream

open Scanner

/-- To decide what a token is, it is read anew, or left as it is. -/
theorem resolve_induction {P : Scanner → Prop} {t : TokenStream} (h : P t.scanner)
    (slash : P t.scanner.rescanSlash) (greater : P t.scanner.rescanGreater)
    (template : P t.scanner.rescanTemplate) : P t.resolve.scanner := by
  unfold resolve
  split
  · split <;> assumption
  · split <;> assumption
  · exact greater
  · exact h
  · split
    · split <;> assumption
    · exact h
  · exact h
  · exact h

theorem reaches_next {source : String} {kept : List Scanner} {t : TokenStream}
    (h : Reaches source kept t.scanner) : Reaches source kept t.next.scanner :=
  resolve_induction (P := Reaches source kept) h.scan h.scan.rescanSlash h.scan.rescanGreater
    h.scan.rescanTemplate

theorem extends_next (t : TokenStream) : Extends t.scanner t.next.scanner :=
  have h := Extends.scan t.scanner
  resolve_induction (P := Extends t.scanner) h (h.trans (.of_rereads (rescanSlash_rereads _)))
    (h.trans (.of_rereads (rescanGreater_rereads _)))
    (h.trans (.of_rereads (rescanTemplate_rereads _)))

theorem reaches_iterate (text : String) (n : Nat) :
    Reaches text [] (next^[n] (ofString text)).scanner := by
  induction n with
  | zero => exact .start
  | succ n ih =>
      rw [Function.iterate_succ_apply']
      exact reaches_next ih

/-- Collecting tokens takes a number of steps, and finds no less than what each of them found. -/
theorem collect_spec (lines : Text.LineMap) (fuel : Nat) (t : TokenStream) (tokens : List Token) :
    ∃ k, (collect lines fuel t tokens).1 =
        ((List.range k).map fun n => (next^[n + 1] t).current lines).reverse ++ tokens ∧
      ∀ n ≤ k, Extends (next^[n] t).scanner (collect lines fuel t tokens).2 := by
  induction fuel generalizing t tokens with
  | zero =>
      refine ⟨0, rfl, fun n hn => ?_⟩
      rw [Nat.le_zero.mp hn]
      exact .refl _
  | succ fuel ih =>
      rw [collect]
      split
      · refine ⟨0, rfl, fun n hn => ?_⟩
        rw [Nat.le_zero.mp hn]
        exact extends_next t
      · obtain ⟨k, htokens, hext⟩ := ih t.next (t.next.current lines :: tokens)
        refine ⟨k + 1, ?_, fun n hn => ?_⟩
        · rw [htokens, List.range_succ_eq_map, List.map_cons, List.map_map, List.reverse_cons,
            List.append_assoc]
          rfl
        · cases n with
          | zero => exact (extends_next t).trans (hext 0 (Nat.zero_le k))
          | succ n => exact hext n (Nat.le_of_succ_le_succ hn)

end TokenStream

/-- Where no lexical error was found, each name and keyword on the way is spelled as such: when the
scanner was asked in any order to go on, to read anew and to go back, and when all tokens of a text
are read. -/
theorem spelled_of_no_errors (text : String) :
    (∀ kept s, Scanner.Reaches text kept s → s.errors = [] → ∀ p ∈ s :: kept, p.Spelled) ∧
    ((Token.scanAll text).2 = [] → ∃ k,
      (Token.scanAll text).1 = (List.range k).map (fun n =>
        (TokenStream.next^[n + 1] (.ofString text)).current (Text.LineMap.ofString text)) ∧
      ∀ n < k, (TokenStream.next^[n + 1] (.ofString text)).scanner.Spelled) := by
  refine ⟨fun kept s h he => List.forall_mem_cons.mpr ⟨?_, fun p hp => ?_⟩, fun he => ?_⟩
  · exact h.spelled (List.reverse_eq_nil_iff.mp he)
  · obtain ⟨earlier, hp'⟩ := h.of_kept hp
    exact hp'.spelled ((h.extends_kept p hp).errorsRev_nil (List.reverse_eq_nil_iff.mp he))
  · obtain ⟨k, htokens, hext⟩ := TokenStream.collect_spec (Text.LineMap.ofString text)
      (text.utf8ByteSize + 1) (.ofString text) []
    refine ⟨k, ?_, fun n hn => ?_⟩
    · rw [List.append_nil] at htokens
      exact (congrArg List.reverse htokens).trans (List.reverse_reverse _)
    · exact (TokenStream.reaches_iterate text (n + 1)).spelled
        ((hext (n + 1) hn).errorsRev_nil (List.reverse_eq_nil_iff.mp he))

/-- A name with an escape, a private one with an escape, and a keyword. -/
theorem spelled_of_no_errors_escapes :
    let text := "\\u0061b #c\\u\x7b64\x7d class"
    let s (n : Nat) := (TokenStream.next^[n + 1] (.ofString text)).scanner
    (Token.scanAll text).2 = [] ∧ (s 0).value = "ab" ∧ (s 1).value = "#cd" ∧
      (s 2).token = .classKw ∧ ∀ n < 3, (s n).Spelled := by
  intro text s
  have herrors : (Token.scanAll text).2 = [] := by decide +kernel
  have hlength : (Token.scanAll text).1.length = 3 := by decide +kernel
  obtain ⟨k, htokens, hspelled⟩ := (spelled_of_no_errors text).2 herrors
  rw [htokens, List.length_map, List.length_range] at hlength
  subst hlength
  exact ⟨herrors, by decide +kernel, by decide +kernel, by decide +kernel, hspelled⟩

end Erasure
