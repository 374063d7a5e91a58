import Mathlib.Logic.Function.Iterate
import Erasure.Proofs.Token.Place
import Erasure.Token.Stream

/-!
The tokens of a text leave out nothing but trivia. Their ranges are in order, not empty, and end
between characters, and the stream of tokens always ends. This fails only for a text in which a
token starts with a stray escape: then the rest of the text is lost.
-/

namespace Erasure

/-- The ranges before, between and after other ranges. -/
def gaps (size : Nat) : Nat → List Span → List Span
  | start, [] => [⟨start, size⟩]
  | start, s :: ss => ⟨start, s.start⟩ :: gaps size s.stop ss

/-- Only trivia stands between two offsets. -/
def TriviaBetween (text : String) (gap : Span) : Prop :=
  Trivia (gap.start = 0) (Cursor.atOffset text gap.start).rest (Cursor.atOffset text gap.stop).rest

/-- From an offset on, ranges leave out nothing of a text but trivia. -/
structure Covers (text : String) (start : Nat) (spans : List Span) : Prop where
  after : ∀ s ∈ spans, start ≤ s.start
  nonempty : ∀ s ∈ spans, s.start < s.stop
  inside : ∀ s ∈ spans, s.stop ≤ text.utf8ByteSize
  boundaries : ∀ s ∈ spans,
    String.Pos.Raw.IsValid text ⟨s.start⟩ ∧ String.Pos.Raw.IsValid text ⟨s.stop⟩
  ordered : spans.Pairwise fun s t => s.stop ≤ t.start
  trivia : ∀ gap ∈ gaps text.utf8ByteSize start spans, TriviaBetween text gap

theorem Covers.nil {text : String} {start : Nat}
    (h : TriviaBetween text ⟨start, text.utf8ByteSize⟩) : Covers text start [] :=
  ⟨nofun, nofun, nofun, nofun, .nil, by simpa [gaps] using h⟩

theorem Covers.cons {text : String} {start : Nat} {s : Span} {ss : List Span}
    (hgap : TriviaBetween text ⟨start, s.start⟩) (hle : start ≤ s.start) (hlt : s.start < s.stop)
    (hstart : String.Pos.Raw.IsValid text ⟨s.start⟩)
    (hstop : String.Pos.Raw.IsValid text ⟨s.stop⟩) (h : Covers text s.stop ss) :
    Covers text start (s :: ss) where
  after := by
    rintro t (_ | ⟨_, ht⟩)
    · exact hle
    · exact (hle.trans hlt.le).trans (h.after t ht)
  nonempty := List.forall_mem_cons.mpr ⟨hlt, h.nonempty⟩
  inside := List.forall_mem_cons.mpr ⟨hstop.le_rawEndPos, h.inside⟩
  boundaries := List.forall_mem_cons.mpr ⟨⟨hstart, hstop⟩, h.boundaries⟩
  ordered := List.pairwise_cons.mpr ⟨h.after, h.ordered⟩
  trivia := List.forall_mem_cons.mpr ⟨hgap, h.trivia⟩

/-- The text from the start of a token on. -/
def Token.textFrom (text : String) (token : Token) : List Char :=
  (Cursor.atOffset text token.span.start).rest

namespace TokenStream

open Scanner

theorem resolve_rereads (t : TokenStream) : Rereads t.scanner t.resolve.scanner := by
  unfold resolve
  split
  · split
    · exact rescanSlash_rereads t.scanner
    · exact .refl _
  · split
    · exact rescanSlash_rereads t.scanner
    · exact .refl _
  · exact rescanGreater_rereads t.scanner
  · exact .refl _
  · split
    · split
      · exact rescanTemplate_rereads t.scanner
      · exact .refl _
    · exact .refl _
  · exact .refl _
  · exact .refl _

/-- One step passes over trivia and one token. -/
theorem next_spec (t : TokenStream) : Follows t.scanner t.next.scanner ∧ Stands t.next.scanner := by
  obtain ⟨hf, hs⟩ := scan_spec t.scanner
  have hr := resolve_rereads { t with scanner := t.scanner.scan }
  have hstart : t.next.scanner.tokenStart = t.scanner.scan.tokenStart := hr.tokenStart
  obtain ⟨n, hn⟩ := hf.tokenStart
  exact ⟨⟨hr.source.trans hf.source, hr.fullStart.trans hf.fullStart, hf.comments.trans hr.comments,
    hf.errors.trans hr.errors, ⟨n, hstart.trans hn⟩, by rw [hstart]; exact hf.trivia⟩, hr.stands hs⟩

/-- Every step but the last takes something of the text. -/
theorem next_shorter (t : TokenStream) (h : t.next.scanner.token ≠ .endOfFile) :
    t.next.scanner.cursor.rest.length < t.scanner.cursor.rest.length := by
  obtain ⟨hf, hs⟩ := next_spec t
  obtain ⟨n, hn⟩ := hf.tokenStart
  have hle : t.next.scanner.tokenStart.rest.length ≤ t.scanner.cursor.rest.length := by
    rw [hn, Cursor.rest_advance, List.length_drop]
    omega
  cases hs with
  | atEnd kind => exact absurd kind h
  | within m _ rest _ pos cursor =>
      have := List.length_pos_iff.mpr rest
      rw [cursor, Cursor.rest_advance, List.length_drop]
      omega
  | broken m _ broken rest =>
      have hne : t.next.scanner.tokenStart.rest ≠ [] := by
        intro hnil
        rw [hnil] at broken
        exact absurd broken (by decide)
      have := List.length_pos_iff.mpr hne
      rw [rest, List.length_nil]
      omega

/-- The tokens that the steps from a state on give. -/
inductive Yields (lines : Text.LineMap) : TokenStream → List Token → Prop where
  | done {t : TokenStream} (h : t.next.scanner.token = .endOfFile) : Yields lines t []
  | step {t : TokenStream} {tokens : List Token} (h : t.next.scanner.token ≠ .endOfFile)
      (rest : Yields lines t.next tokens) : Yields lines t (t.next.current lines :: tokens)

theorem collect_yields (lines : Text.LineMap) (fuel : Nat) (t : TokenStream)
    (acc : List Token) (hfuel : t.scanner.cursor.rest.length < fuel) :
    ∃ tokens, (t.collect lines fuel acc).1 = tokens.reverse ++ acc ∧ Yields lines t tokens := by
  induction fuel generalizing t acc with
  | zero => exact absurd hfuel (Nat.not_lt_zero _)
  | succ fuel ih =>
      unfold collect
      dsimp only
      split
      · rename_i hend
        exact ⟨[], rfl, .done hend⟩
      · rename_i hend
        have hlt := next_shorter t hend
        obtain ⟨tokens, heq, hy⟩ := ih t.next (t.next.current lines :: acc) (by omega)
        exact ⟨t.next.current lines :: tokens, by rw [heq]; simp, .step hend hy⟩

/-- After its tokens the stream is at the end. -/
theorem Yields.ends {lines : Text.LineMap} {t : TokenStream} {tokens : List Token}
    (h : Yields lines t tokens) :
    (TokenStream.next^[tokens.length + 1] t).scanner.token = .endOfFile := by
  induction h with
  | done h => exact h
  | step h rest ih => rw [List.length_cons, Function.iterate_succ_apply]; exact ih

section
variable {lines : Text.LineMap} {text : String} {t : TokenStream} {tokens : List Token}

theorem next_sound (hs : t.scanner.cursor.Sound text) :
    t.next.scanner.tokenStart.Sound text := by
  obtain ⟨n, hn⟩ := (next_spec t).1.tokenStart
  rw [hn]
  exact hs.advance n

theorem textFrom_next (hs : t.scanner.cursor.Sound text) :
    (t.next.current lines).textFrom text = t.next.scanner.tokenStart.rest := by
  show (Cursor.atOffset text t.next.scanner.tokenStart.offset).rest = _
  rw [(next_sound hs).atOffset_offset]

theorem next_triviaBetween (hs : t.scanner.cursor.Sound text) :
    TriviaBetween text ⟨t.scanner.stop, t.next.scanner.start⟩ := by
  have htr := (next_spec t).1.trivia
  have hc := hs.atOffset_offset
  have hn := (next_sound hs).atOffset_offset
  unfold TriviaBetween
  simp only [stop, start, hc, hn] at htr ⊢
  exact htr

/-- Without stray escapes the tokens from a state on cover the rest of the text. -/
theorem Yields.covers (h : Yields lines t tokens) (hs : t.scanner.cursor.Sound text)
    (hb : ∀ token ∈ tokens, breaksOff (token.textFrom text) = false) :
    Covers text t.scanner.stop (tokens.map Token.span) := by
  induction h with
  | @done t hend =>
      have hsize : t.next.scanner.start = text.utf8ByteSize := by
        rw [start, ← (next_sound hs).offset_add]
        cases (next_spec t).2 with
        | atEnd _ rest => rw [rest]; rfl
        | within _ kind => exact absurd hend kind
        | broken _ kind => rw [kind] at hend; cases hend
      exact .nil (hsize ▸ next_triviaBetween hs)
  | @step t tokens hend rest ih =>
      obtain ⟨hhead, htail⟩ := List.forall_mem_cons.mp hb
      rw [textFrom_next hs] at hhead
      have hle : t.scanner.stop ≤ t.next.scanner.start := (next_spec t).1.stop_le_start
      cases (next_spec t).2 with
      | atEnd kind => exact absurd kind hend
      | broken _ _ broken => rw [broken] at hhead; cases hhead
      | within n _ hne _ pos cursor =>
          have hsound : t.next.scanner.cursor.Sound text := cursor ▸ (next_sound hs).advance n
          have hlt : t.next.scanner.start < t.next.scanner.stop := by
            have htake : t.next.scanner.tokenStart.rest.take n ≠ [] := by
              rw [Ne, List.take_eq_nil_iff, not_or]
              exact ⟨by omega, hne⟩
            have := Text.byteSize_pos htake
            rw [start, stop, cursor, Cursor.offset_advance]
            omega
          exact .cons (next_triviaBetween hs) hle hlt (next_sound hs).isValid hsound.isValid
            (ih hsound htail)

/-- A token at which the text breaks off does not end between characters. -/
theorem Yields.not_isValid_stop (h : Yields lines t tokens) (hs : t.scanner.cursor.Sound text)
    {token : Token} (hmem : token ∈ tokens) (hb : breaksOff (token.textFrom text) = true) :
    ¬ String.Pos.Raw.IsValid text ⟨token.span.stop⟩ := by
  induction h with
  | done => cases hmem
  | @step t tokens hend rest ih =>
      cases (next_spec t).2 with
      | atEnd kind => exact absurd kind hend
      | within n _ _ whole _ cursor =>
          rcases List.mem_cons.mp hmem with rfl | hmem
          · rw [textFrom_next hs, whole] at hb
            cases hb
          · exact ih (cursor ▸ (next_sound hs).advance n) hmem
      | broken n _ _ hnil before offset =>
          -- Nothing can be read behind it, so it is the last token.
          have hlast : tokens = [] := by
            cases rest with
            | done => rfl
            | step hend' =>
                have := next_shorter _ hend'
                rw [hnil] at this
                exact absurd this (Nat.not_lt_zero _)
          subst hlast
          obtain rfl := List.mem_singleton.mp hmem
          show ¬ String.Pos.Raw.IsValid text ⟨t.next.scanner.stop⟩
          rw [offset]
          exact ((next_sound hs).advance n).not_isValid_succ before

end

end TokenStream

theorem scanAll_yields (text : String) :
    TokenStream.Yields (Text.LineMap.ofString text) (TokenStream.ofString text)
      (Token.scanAll text).1 := by
  have hfuel : (TokenStream.ofString text).scanner.cursor.rest.length < text.utf8ByteSize + 1 :=
    Nat.lt_succ_of_le (Text.byteSize_toList text ▸ Text.length_le_byteSize text.toList)
  obtain ⟨tokens, heq, hy⟩ := TokenStream.collect_yields (Text.LineMap.ofString text)
    (text.utf8ByteSize + 1) (TokenStream.ofString text) [] hfuel
  have hscan : (Token.scanAll text).1 = tokens := by
    simp only [Token.scanAll, heq, List.append_nil, List.reverse_reverse]
  rw [hscan]
  exact hy

/-- The stream of tokens ends, and its tokens leave out nothing of the text but trivia exactly if
none of them starts with a stray escape. -/
theorem scanAll_covers_iff (text : String) :
    (TokenStream.next^[(Token.scanAll text).1.length + 1]
      (TokenStream.ofString text)).scanner.token = .endOfFile ∧
    (Covers text 0 ((Token.scanAll text).1.map Token.span) ↔
      ∀ token ∈ (Token.scanAll text).1, Scanner.breaksOff (token.textFrom text) = false) := by
  have hy := scanAll_yields text
  have hs : (TokenStream.ofString text).scanner.cursor.Sound text := Cursor.sound_ofString text
  refine ⟨hy.ends, fun h token hmem => ?_, hy.covers hs⟩
  by_contra hb
  rw [Bool.not_eq_false] at hb
  exact hy.not_isValid_stop hs hmem hb
    (h.boundaries token.span (List.mem_map_of_mem hmem)).2

/-- The escape is six bytes long, and its token ends within the character after it. -/
theorem not_covers_stray_escape :
    ¬ Covers "\\u0030é b" 0 ((Token.scanAll "\\u0030é b").1.map Token.span) := by
  have hspans : (Token.scanAll "\\u0030é b").1.map Token.span = [⟨0, 7⟩] := by decide +kernel
  rw [hspans]
  intro h
  have hstop := (h.boundaries ⟨0, 7⟩ (by decide)).2
  exact absurd hstop (by decide +kernel)

end Erasure
