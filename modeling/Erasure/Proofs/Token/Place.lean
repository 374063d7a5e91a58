import Erasure.Proofs.Token.Trivia

/-!
Where the current token stands. Whatever the scanner is asked to do, its token is the end of the
text, or starts at a place of the text and ends at a later one, or the text breaks off in it. So a
token covers at least one character of the source, and a name stands for at least one character,
too.
-/

namespace Erasure.Scanner

/-- What the current token covers of the text. -/
inductive Stands (s : Scanner) : Prop where
  | atEnd (kind : s.token = .endOfFile) (rest : s.tokenStart.rest = [])
      (cursor : s.cursor = s.tokenStart)
  | within (n : Nat) (kind : s.token ≠ .endOfFile) (rest : s.tokenStart.rest ≠ [])
      (whole : breaksOff s.tokenStart.rest = false) (pos : 1 ≤ n)
      (cursor : s.cursor = s.tokenStart.advance n)
  | broken (n : Nat) (kind : s.token = .unknown) (broken : breaksOff s.tokenStart.rest = true)
      (rest : s.cursor.rest = [])
      (before : (s.tokenStart.advance n).rest.head?.any Text.isAscii = false)
      (offset : s.stop = (s.tokenStart.advance n).offset + 1)

/-- The end of the text is the only token at which nothing is left. -/
theorem Stands.endOfFile_iff {s : Scanner} (h : Stands s) :
    s.token = .endOfFile ↔ s.tokenStart.rest = [] := by
  cases h with
  | atEnd kind rest => exact iff_of_true kind rest
  | within _ kind rest => exact iff_of_false kind rest
  | broken _ kind broken =>
      refine iff_of_false (by rw [kind]; decide) fun hnil => ?_
      rw [hnil] at broken
      exact absurd broken (by decide)

theorem Stands.start_le_stop {s : Scanner} (h : Stands s) : s.start ≤ s.stop := by
  unfold start stop
  cases h with
  | atEnd _ _ cursor => rw [cursor]
  | within n _ _ _ _ cursor => rw [cursor, Cursor.offset_advance]; exact Nat.le_add_right _ _
  | broken n _ _ _ _ offset =>
      rw [stop, Cursor.offset_advance] at offset
      omega

/-- A token read from its start on. -/
theorem Stands.of_passes {s t : Scanner} (h : Passes 1 s t) (hs : s.tokenStart = s.cursor)
    (hr : s.cursor.rest ≠ []) (hb : breaksOff s.cursor.rest = false)
    (hk : t.token ≠ .endOfFile) : Stands t := by
  obtain ⟨n, hn, hc⟩ := h.cursor
  have hstart : t.tokenStart = s.cursor := h.tokenStart.trans hs
  exact .within n hk (by rw [hstart]; exact hr) (by rw [hstart]; exact hb) hn
    (by rw [hstart]; exact hc)

theorem scanToken_stands (s : Scanner) {c : Char} {cs : List Char}
    (hr : s.cursor.rest = c :: cs) (hs : s.tokenStart = s.cursor) : Stands (s.scanToken c) := by
  cases hb : breaksOff s.cursor.rest with
  | false =>
      exact Stands.of_passes (passes_scanToken s hr hb) hs (by rw [hr]; exact List.cons_ne_nil _ _)
        hb (token_scanToken_ne s c)
  | true =>
      obtain ⟨h, hk⟩ := loses_scanToken s hr hb
      obtain ⟨n, hn, ho⟩ := h.offset
      have hstart : (s.scanToken c).tokenStart = s.cursor := h.tokenStart.trans hs
      exact .broken n hk (by rw [hstart]; exact hb) h.rest (by rw [hstart]; exact hn)
        (by rw [hstart]; exact ho)

/-- The scanner before the token is read, after the blanks and comments. -/
def beforeToken (s : Scanner) : Scanner :=
  skipTrivia (s.remaining + 1) { s with fullStart := s.stop, flags := {}, value := "" }

theorem scan_eq (s : Scanner) :
    s.scan =
      match s.beforeToken.cursor.rest with
      | [] => { s.beforeToken with tokenStart := s.beforeToken.cursor, token := .endOfFile }
      | c :: _ => scanToken { s.beforeToken with tokenStart := s.beforeToken.cursor } c := rfl

theorem beforeToken_spec (s : Scanner) :
    Passes 0 { s with fullStart := s.stop, flags := {}, value := "" } s.beforeToken ∧
      Trivia (s.stop = 0) s.cursor.rest s.beforeToken.cursor.rest :=
  skipTrivia_spec _ _

/-- Going on to the next token passes over trivia and changes nothing of the text. -/
structure Follows (s t : Scanner) : Prop where
  source : t.source = s.source
  fullStart : t.fullStart = s.stop
  comments : s.commentsRev <:+ t.commentsRev
  errors : s.errorsRev <:+ t.errorsRev
  tokenStart : ∃ n, t.tokenStart = s.cursor.advance n
  trivia : Trivia (s.stop = 0) s.cursor.rest t.tokenStart.rest

theorem Follows.stop_le_start {s t : Scanner} (h : Follows s t) : s.stop ≤ t.start := by
  obtain ⟨n, hn⟩ := h.tokenStart
  rw [start, hn, Cursor.offset_advance]
  exact Nat.le_add_right _ _

/-- Reading a token keeps where it starts and what was noted before it. -/
structure Keeps (s t : Scanner) : Prop where
  source : t.source = s.source
  fullStart : t.fullStart = s.fullStart
  tokenStart : t.tokenStart = s.tokenStart
  comments : s.commentsRev <:+ t.commentsRev
  errors : s.errorsRev <:+ t.errorsRev

theorem keeps_scanToken (s : Scanner) {c : Char} {cs : List Char} (hr : s.cursor.rest = c :: cs) :
    Keeps s (s.scanToken c) := by
  cases hb : breaksOff s.cursor.rest with
  | false =>
      have h := passes_scanToken s hr hb
      exact ⟨h.source, h.fullStart, h.tokenStart, h.comments, h.errors⟩
  | true =>
      have h := (loses_scanToken s hr hb).1
      exact ⟨h.source, h.fullStart, h.tokenStart, h.comments, h.errors⟩

theorem keeps_scan (s : Scanner) :
    Keeps { s.beforeToken with tokenStart := s.beforeToken.cursor } s.scan := by
  rw [scan_eq]
  split
  · exact ⟨rfl, rfl, rfl, List.suffix_rfl, List.suffix_rfl⟩
  · rename_i c cs hcons
    exact keeps_scanToken _ hcons

theorem scan_spec (s : Scanner) : Follows s s.scan ∧ Stands s.scan := by
  obtain ⟨hp, htr⟩ := beforeToken_spec s
  obtain ⟨n, -, hn⟩ := hp.cursor
  have hk := keeps_scan s
  have hstart : s.scan.tokenStart = s.beforeToken.cursor := hk.tokenStart
  refine ⟨⟨hk.source.trans hp.source, hk.fullStart.trans hp.fullStart,
    hp.comments.trans hk.comments, hp.errors.trans hk.errors, ⟨n, hstart.trans hn⟩,
    by rw [hstart]; exact htr⟩, ?_⟩
  rw [scan_eq]
  split
  · rename_i hnil
    exact .atEnd rfl hnil rfl
  · rename_i c cs hcons
    exact scanToken_stands _ hcons rfl

/-- Behind the end of the text is the end of the text. -/
theorem Stands.scan_endOfFile {s : Scanner} (h : Stands s) (hend : s.token = .endOfFile) :
    s.scan.token = .endOfFile ∧ s.scan.start = s.start := by
  have hcursor : s.cursor = s.tokenStart := by
    cases h with
    | atEnd _ _ cursor => exact cursor
    | within _ kind => exact absurd hend kind
    | broken _ kind => exact absurd (kind.symm.trans hend) (by decide)
  have hrest : s.cursor.rest = [] := hcursor ▸ h.endOfFile_iff.mp hend
  obtain ⟨n, hn⟩ := (scan_spec s).1.tokenStart
  refine ⟨(scan_spec s).2.endOfFile_iff.mpr ?_, ?_⟩
  · rw [hn, Cursor.rest_advance, hrest, List.drop_nil]
  · rw [start, hn, Cursor.offset_advance, hrest, List.take_nil, start, hcursor]
    rfl

/-- Reading the token anew from its start on, or on from its end. -/
structure Rereads (s t : Scanner) : Prop where
  source : t.source = s.source
  fullStart : t.fullStart = s.fullStart
  tokenStart : t.tokenStart = s.tokenStart
  comments : s.commentsRev <:+ t.commentsRev
  errors : s.errorsRev <:+ t.errorsRev
  stands : Stands s → Stands t

theorem Rereads.refl (s : Scanner) : Rereads s s :=
  ⟨rfl, rfl, rfl, List.suffix_rfl, List.suffix_rfl, id⟩

/-- Only the end of the text is read anew as the end of the text. -/
theorem Rereads.endOfFile_iff {s t : Scanner} (h : Rereads s t) (hs : Stands s) :
    t.token = .endOfFile ↔ s.token = .endOfFile := by
  rw [(h.stands hs).endOfFile_iff, hs.endOfFile_iff, h.tokenStart]

/-- A token that is no end of file and not unknown is read on from its end. -/
theorem Rereads.of_passes {s t : Scanner} (h : Passes 0 s t) (hk : s.token ≠ .unknown)
    (hs : s.token ≠ .endOfFile) (ht : t.token ≠ .endOfFile) : Rereads s t := by
  refine ⟨h.source, h.fullStart, h.tokenStart, h.comments, h.errors, fun hst => ?_⟩
  cases hst with
  | atEnd kind => exact absurd kind hs
  | broken _ kind => exact absurd kind hk
  | within n _ rest whole pos cursor =>
      obtain ⟨m, -, hm⟩ := h.cursor
      have hstart := h.tokenStart
      exact .within (n + m) ht (by rw [hstart]; exact rest) (by rw [hstart]; exact whole)
        (by omega) (by rw [hstart, hm, cursor, Cursor.advance_advance])

/-- The token is read anew after its first character. -/
theorem Rereads.of_restart {s t : Scanner}
    (h : Passes 0 { s with cursor := s.tokenStart.advance 1 } t) (hk : s.token ≠ .unknown)
    (hs : s.token ≠ .endOfFile) (ht : t.token ≠ .endOfFile) : Rereads s t := by
  refine ⟨h.source, h.fullStart, h.tokenStart, h.comments, h.errors, fun hst => ?_⟩
  cases hst with
  | atEnd kind => exact absurd kind hs
  | broken _ kind => exact absurd kind hk
  | within _ _ rest whole =>
      obtain ⟨m, -, hm⟩ := h.cursor
      have hstart : t.tokenStart = s.tokenStart := h.tokenStart
      exact .within (1 + m) ht (by rw [hstart]; exact rest) (by rw [hstart]; exact whole)
        (by omega) (by rw [hstart, hm, Cursor.advance_advance])

theorem rescanGreater_rereads (s : Scanner) : Rereads s s.rescanGreater := by
  unfold rescanGreater
  split
  · rename_i hk
    split
    · rename_i more kind hfind
      have table : ∀ p ∈ greaterOperators, p.2 ≠ .endOfFile := by decide
      exact .of_passes (((Passes.refl s).advance _).finish kind) (by rw [hk]; decide)
        (by rw [hk]; decide) (table _ (List.mem_of_find?_eq_some hfind))
    · exact .refl s
  · exact .refl s

theorem rescanSlash_rereads (s : Scanner) : Rereads s s.rescanSlash := by
  unfold rescanSlash
  split
  · rename_i hk
    have hk : s.token = .slash ∨ s.token = .slashEquals := by simpa using hk
    refine .of_restart (Passes.finish ?_ _) (by rcases hk with h | h <;> rw [h] <;> decide)
      (by rcases hk with h | h <;> rw [h] <;> decide) (by simp [finish])
    dsimp only
    refine Passes.trans (n := 0) ?_ (passes_skipWhile _ _)
    refine Passes.ite _ ((Passes.refl _).advance _) ?_
    exact (((Passes.refl _).advance _).error _ _ _).withFlags _
  · exact .refl s

theorem rescanTemplate_rereads (s : Scanner) : Rereads s s.rescanTemplate := by
  unfold rescanTemplate
  split
  · rename_i hk
    refine .of_restart ((Passes.refl _).readTemplate _ _ _ _) (by rw [hk]; decide)
      (by rw [hk]; decide) ?_
    rcases token_readTemplate { s with cursor := s.tokenStart.advance 1 } .templateTail
      .templateMiddle (remaining { s with cursor := s.tokenStart.advance 1 } + 1) []
      with h | h <;> rw [h] <;> decide
  · exact .refl s

end Erasure.Scanner

namespace Erasure

/-- Tokens that can be taken as a name. -/
def TokenKind.isName (k : TokenKind) : Bool := k.isIdentifierOrKeyword || k = .privateIdentifier

theorem TokenKind.isName_of_isIdentifierLike {k : TokenKind} (h : k.isIdentifierLike = true) :
    k.isName = true := by
  revert h
  cases k <;> decide

theorem TokenKind.ne_of_isName {k : TokenKind} (h : k.isName = true) :
    k ≠ .endOfFile ∧ k ≠ .unknown := by
  constructor <;> rintro rfl <;> exact absurd h (by decide)

namespace Scanner

/-- The text of a token is not empty. -/
theorem Stands.text_ne {s : Scanner} (h : Stands s)
    (hsound : s.tokenStart.rest ≠ [] → s.tokenStart.Sound s.source)
    (hend : s.token ≠ .endOfFile) (hk : s.token ≠ .unknown) : s.text ≠ "" := by
  cases h with
  | atEnd kind => exact absurd kind hend
  | broken n kind => exact absurd kind hk
  | within n _ rest _ pos cursor =>
      rw [text, start, stop, cursor, (hsound rest).slice_advance n]
      intro hnil
      have htake := congrArg String.toList hnil
      rw [String.toList_ofList, String.toList_empty, List.take_eq_nil_iff] at htake
      rcases htake with hzero | hrest
      · omega
      · exact rest hrest

/-- The scanner stands on a token that is written in the source. -/
structure Ready (s : Scanner) : Prop where
  stands : Stands s
  /-- Only behind a stray escape, where nothing is left, the place in the source is lost. -/
  sound : s.tokenStart.rest ≠ [] → s.tokenStart.Sound s.source
  named : s.token.isName = true → s.value ≠ ""

namespace Ready

variable {s : Scanner}

theorem start_le_stop (h : s.Ready) : s.start ≤ s.stop := h.stands.start_le_stop

theorem start_lt_stop (h : s.Ready) (hend : s.token ≠ .endOfFile) : s.start < s.stop := by
  cases h.stands with
  | atEnd kind => exact absurd kind hend
  | within n _ rest _ pos cursor =>
      have htake : s.tokenStart.rest.take n ≠ [] := by
        rw [Ne, List.take_eq_nil_iff, not_or]
        exact ⟨by omega, rest⟩
      have := Text.byteSize_pos htake
      rw [start, stop, cursor, Cursor.offset_advance]
      omega
  | broken n _ _ _ _ offset =>
      rw [Cursor.offset_advance] at offset
      rw [start]
      omega

/-- Before the end of the text the position lies in the text. -/
theorem start_lt_size (h : s.Ready) (hend : s.token ≠ .endOfFile) :
    s.start < s.source.utf8ByteSize := by
  have hrest : s.tokenStart.rest ≠ [] := fun hnil => hend (h.stands.endOfFile_iff.mpr hnil)
  have hsize := (h.sound hrest).offset_add
  have := Text.byteSize_pos hrest
  rw [start]
  omega

theorem text_ne (h : s.Ready) (hend : s.token ≠ .endOfFile) (hk : s.token ≠ .unknown) :
    s.text ≠ "" :=
  h.stands.text_ne h.sound hend hk

theorem placed (h : s.Ready) : s.Placed := by
  intro hr
  cases h.stands with
  | atEnd _ rest cursor => exact absurd (cursor ▸ rest) hr
  | within n _ rest _ _ cursor => rw [cursor]; exact (h.sound rest).advance n
  | broken _ _ _ rest => exact absurd rest hr

end Ready

/-- A name that was read stands for its text or for the characters that were found. -/
theorem value_scanName (s : Scanner) :
    s.scanName.value = s.scanName.text ∨ s.scanName.value ≠ "" := by
  unfold scanName
  dsimp only
  split
  · exact .inl rfl
  · rename_i hne
    split
    · refine .inr fun heq => hne ?_
      have hnil := congrArg String.toList heq
      rw [String.toList_ofList, String.toList_empty, List.reverse_eq_nil_iff] at hnil
      rw [hnil]
      rfl
    · exact .inl rfl

theorem value_scanPrivateName (s : Scanner) :
    s.scanPrivateName.value = s.scanPrivateName.text ∨ s.scanPrivateName.value ≠ "" := by
  unfold scanPrivateName
  dsimp only
  split
  · split
    · exact .inl rfl
    · split
      · refine .inr fun heq => ?_
        have hnil := congrArg String.toList heq
        rw [String.toList_ofList, String.toList_empty] at hnil
        exact absurd hnil (List.cons_ne_nil _ _)
      · exact .inl rfl
  · exact .inl rfl

theorem isName_scanNumber (s : Scanner) : s.scanNumber.token.isName = false := by
  simp only [scanNumber, finish]
  split <;> rfl

theorem isName_punctuator? {rest : List Char} {kind : TokenKind} {n : Nat}
    (h : TokenKind.punctuator? rest = some (kind, n)) : kind.isName = false := by
  have table : ∀ p ∈ TokenKind.scannedPunctuators, p.2.isName = false := by decide
  unfold TokenKind.punctuator? at h
  obtain ⟨p, hp, heq⟩ := Option.map_eq_some_iff.mp h
  cases heq
  exact table p (List.mem_of_find?_eq_some hp)

/-- Only two of the ways to read a token lead to a name. -/
theorem scanToken_of_isName {s : Scanner} {c : Char} (h : (s.scanToken c).token.isName = true) :
    c = '#' ∧ s.scanToken c = s.scanPrivateName ∨
      (c = '\\' ∨ Text.isIdentifierStart c = true) ∧ s.scanToken c = s.scanName := by
  have other {k : TokenKind} (hk : (s.scanToken c).token = k) (hno : k.isName = false) : False := by
    rw [hk, hno] at h
    cases h
  unfold scanToken at h other ⊢
  split
  · rename_i hc
    rw [if_pos hc] at other
    exact (other (token_readString _ _ _ _) rfl).elim
  · rename_i hc
    rw [if_neg hc] at other
    split
    · rename_i ht
      rw [if_pos ht] at other
      rcases token_readTemplate (s.advance 1) .templateLiteral .templateHead (s.remaining + 1) []
        with hk | hk
      · exact (other hk rfl).elim
      · exact (other hk rfl).elim
    · rename_i ht
      rw [if_neg ht] at other
      split
      · rename_i hn
        rw [if_pos hn] at other
        exact (other rfl (isName_scanNumber s)).elim
      · rename_i hn
        rw [if_neg hn] at other
        split
        · exact .inl ⟨‹_›, rfl⟩
        · rename_i hp
          rw [if_neg hp] at other
          split
          · rename_i hstart
            exact .inr ⟨by simpa using hstart, rfl⟩
          · rename_i hstart
            rw [if_neg hstart] at other
            split
            · rename_i hpunct
              rw [hpunct] at other
              exact (other rfl (isName_punctuator? hpunct)).elim
            · rename_i hpunct
              rw [hpunct] at other
              exact (other rfl rfl).elim

theorem value_scanToken (s : Scanner) (c : Char) (h : (s.scanToken c).token.isName = true) :
    (s.scanToken c).value = (s.scanToken c).text ∨ (s.scanToken c).value ≠ "" := by
  rcases scanToken_of_isName h with ⟨-, heq⟩ | ⟨-, heq⟩
  · rw [heq]
    exact value_scanPrivateName s
  · rw [heq]
    exact value_scanName s

theorem value_scan (s : Scanner) (h : s.scan.token.isName = true) :
    s.scan.value = s.scan.text ∨ s.scan.value ≠ "" := by
  cases hr : s.beforeToken.cursor.rest with
  | nil =>
      have hend : s.scan.token = .endOfFile := by rw [scan_eq, hr]
      rw [hend] at h
      exact absurd h (by decide)
  | cons c cs =>
      rw [scan_eq, hr] at h ⊢
      exact value_scanToken _ c h

/-- From a place of the text on, the next token is written there. -/
theorem ready_scan {s : Scanner} (h : s.Placed) : s.scan.Ready := by
  obtain ⟨hf, hs⟩ := scan_spec s
  obtain ⟨n, hn⟩ := hf.tokenStart
  have hsound : s.scan.tokenStart.rest ≠ [] → s.scan.tokenStart.Sound s.scan.source := by
    intro hr
    rw [hn, Cursor.rest_advance] at hr
    rw [hn, hf.source]
    exact (h fun hnil => hr (by rw [hnil, List.drop_nil])).advance n
  refine ⟨hs, hsound, fun hname => ?_⟩
  obtain ⟨hend, hk⟩ := TokenKind.ne_of_isName hname
  rcases value_scan s hname with hv | hv
  · rw [hv]
    exact hs.text_ne hsound hend hk
  · exact hv

theorem Ready.scan {s : Scanner} (h : s.Ready) : s.scan.Ready := ready_scan h.placed

theorem stop_le_start_scan (s : Scanner) : s.stop ≤ s.scan.start := (scan_spec s).1.stop_le_start

theorem rescanGreater_of_isName {s : Scanner} (h : s.rescanGreater.token.isName = true) :
    s.rescanGreater = s := by
  unfold rescanGreater at h ⊢
  split at h
  · rename_i hk
    split at h
    · rename_i hfind
      have table : ∀ p ∈ greaterOperators, p.2.isName = false := by decide
      have := table _ (List.mem_of_find?_eq_some hfind)
      exact absurd h (by simp only [finish, this]; decide)
    · rw [if_pos hk]
  · rename_i hk
    rw [if_neg hk]

theorem rescanSlash_of_isName {s : Scanner} (h : s.rescanSlash.token.isName = true) :
    s.rescanSlash = s := by
  unfold rescanSlash at h ⊢
  split at h
  · have hk : TokenKind.isName .regExpLiteral = true := h
    exact absurd hk (by decide)
  · rename_i hk
    rw [if_neg hk]

theorem rescanTemplate_of_isName {s : Scanner} (h : s.rescanTemplate.token.isName = true) :
    s.rescanTemplate = s := by
  unfold rescanTemplate at h ⊢
  split at h
  · rcases token_readTemplate { s with cursor := s.tokenStart.advance 1 } .templateTail
      .templateMiddle (remaining { s with cursor := s.tokenStart.advance 1 } + 1) []
      with hk | hk <;> rw [hk] at h <;> exact absurd h (by decide)
  · rename_i hk
    rw [if_neg hk]

/-- Whatever is read anew is no name. -/
theorem Ready.reread {s t : Scanner} (h : s.Ready) (hr : Rereads s t)
    (hname : t.token.isName = true → t = s) : t.Ready where
  stands := hr.stands h.stands
  sound := by rw [hr.tokenStart, hr.source]; exact h.sound
  named := fun hn => by
    have heq := hname hn
    rw [heq] at hn ⊢
    exact h.named hn

theorem Ready.rescanGreater {s : Scanner} (h : s.Ready) : s.rescanGreater.Ready :=
  h.reread (rescanGreater_rereads s) rescanGreater_of_isName

theorem Ready.rescanSlash {s : Scanner} (h : s.Ready) : s.rescanSlash.Ready :=
  h.reread (rescanSlash_rereads s) rescanSlash_of_isName

theorem Ready.rescanTemplate {s : Scanner} (h : s.Ready) : s.rescanTemplate.Ready :=
  h.reread (rescanTemplate_rereads s) rescanTemplate_of_isName

end Scanner
end Erasure
