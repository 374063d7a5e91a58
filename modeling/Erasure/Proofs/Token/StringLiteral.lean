import Erasure.Proofs.Text.Positions
import Erasure.Proofs.Text.Quoted
import Erasure.Proofs.Token.Line
import Erasure.Token.Stream

/-!
The scanner reads the literal that is written for a string as this string. An escape never reaches
into what follows it: a letter is never a digit of the next one, and of digits there are always
four.
-/

namespace Erasure

namespace Escape

theorem charOfCode?_toNat (c : Char) : charOfCode? c.toNat = some c := by
  have hvalid : c.toNat.isValidChar := c.valid
  rw [charOfCode?, dif_pos hvalid]
  rfl

/-- Four digits stand for the character that has their value. -/
theorem unicode_digits {v x y z c : Char} (rest : List Char)
    (hdigits : [v, x, y, z].all Text.isHexDigit = true)
    (hvalue : hexValue [v, x, y, z] = c.toNat) :
    unicode (v :: x :: y :: z :: rest) = (some c, 4) := by
  have hbrace : v ≠ '\x7b' := by
    rintro rfl
    exact absurd (Bool.and_eq_true_iff.mp hdigits).1 (by decide)
  unfold unicode
  split
  · rename_i heq
    exact absurd (List.cons.inj heq).1 hbrace
  · rename_i heq
    cases heq
    rw [if_pos hdigits, hvalue, charOfCode?_toNat]
    rfl
  · rename_i hshort
    exact absurd rfl (hshort v x y z rest)

end Escape

namespace Text

theorem slice_whole (s : String) : slice s 0 s.utf8ByteSize = s := by
  have hslice := slice_of_split s [] s.toList [] (by simp)
  rwa [byteSize_nil, Nat.zero_add, byteSize_toList, String.ofList_toList] at hslice

theorem LineMap.oneBased_zero (s : String) : (ofString s).oneBased s 0 = (1, 1) := by
  have hzero := position_boundary s (Nat.zero_le s.toList.length)
  rw [List.take_zero, byteSize_nil] at hzero
  rw [oneBased, hzero]
  rfl

end Text

namespace Scanner

theorem advance_advance (s : Scanner) (m n : Nat) :
    (s.advance m).advance n = s.advance (m + n) := by
  simp only [advance, Cursor.advance_advance]

theorem readEscape_letter {s : Scanner} {x c : Char} {rest : List Char}
    (hmem : (x, c) ∈ Text.letterEscapes) (hr : s.cursor.rest = '\\' :: x :: rest)
    (value : List Char) : s.readEscape value = (s.advance 2, c :: value) := by
  simp only [Text.letterEscapes, List.mem_cons, Prod.mk.injEq, List.not_mem_nil, or_false] at hmem
  rw [readEscape, hr]
  rcases hmem with ⟨rfl, rfl⟩ | ⟨rfl, rfl⟩ | ⟨rfl, rfl⟩ | ⟨rfl, rfl⟩ | ⟨rfl, rfl⟩ <;> rfl

theorem readEscape_digits {s : Scanner} {v x y z c : Char} {rest : List Char}
    (hdigits : [v, x, y, z].all Text.isHexDigit = true)
    (hvalue : Escape.hexValue [v, x, y, z] = c.toNat)
    (hr : s.cursor.rest = '\\' :: 'u' :: v :: x :: y :: z :: rest) (value : List Char) :
    s.readEscape value = (s.advance 6, c :: value) := by
  rw [readEscape, hr]
  simp only [Escape.unicode_digits rest hdigits hvalue, advance_advance]

/-- What a character is written as inside double quotes is read as this character. -/
theorem readString_quoteChar (fuel : Nat) {s : Scanner} {c : Char} {rest : List Char}
    (hr : s.cursor.rest = Text.quoteChar c ++ rest) (value : List Char) :
    s.readString '"' (fuel + 1) value =
      (s.advance (Text.quoteChar c).length).readString '"' fuel (c :: value) := by
  rcases Text.quoteChar_cases c with ⟨x, hmem, hq⟩ | ⟨v, x, y, z, hdigits, hvalue, hq⟩ |
    ⟨hq, hquote, hslash, hfeed, hreturn⟩
  · rw [hq] at hr ⊢
    rw [readString, hr]
    simp [readEscape_letter hmem hr]
  · rw [hq] at hr ⊢
    rw [readString, hr]
    simp [readEscape_digits hdigits hvalue hr]
  · rw [hq] at hr ⊢
    rw [readString, hr]
    simp [hquote, hslash, hfeed, hreturn]

theorem readString_quoted (fuel : Nat) {s : Scanner} {cs rest : List Char} (value : List Char)
    (hr : s.cursor.rest = cs.flatMap Text.quoteChar ++ '"' :: rest) (hfuel : cs.length < fuel) :
    s.readString '"' fuel value =
      (s.advance ((cs.flatMap Text.quoteChar).length + 1)).finishCooked .stringLiteral
        (cs.reverse ++ value) := by
  induction cs generalizing s fuel value with
  | nil =>
      obtain ⟨fuel, rfl⟩ : ∃ n, fuel = n + 1 := ⟨fuel - 1, by omega⟩
      rw [List.flatMap_nil, List.nil_append] at hr
      rw [readString, hr]
      rfl
  | cons c cs ih =>
      obtain ⟨fuel, rfl⟩ : ∃ n, fuel = n + 1 := ⟨fuel - 1, by omega⟩
      rw [List.flatMap_cons, List.append_assoc] at hr
      have hnext : (s.advance (Text.quoteChar c).length).cursor.rest =
          cs.flatMap Text.quoteChar ++ '"' :: rest := by
        rw [advance, Cursor.rest_advance, hr, List.drop_left' rfl]
      rw [readString_quoteChar fuel hr, ih fuel (c :: value) hnext (by simpa using hfuel),
        advance_advance, List.flatMap_cons, List.length_append, Nat.add_assoc]
      simp

theorem startsToken_quote (cs : List Char) : startsToken '"' cs :=
  ⟨by decide, by decide, by decide, fun h => absurd h (by decide)⟩

theorem length_le_quoted (cs : List Char) : cs.length ≤ (cs.flatMap Text.quoteChar).length := by
  induction cs with
  | nil => exact Nat.le_refl 0
  | cons c cs ih =>
      have hpos : 0 < (Text.quoteChar c).length := by
        rcases Text.quoteChar_cases c with ⟨_, _, hq⟩ | ⟨_, _, _, _, _, _, hq⟩ | ⟨hq, _⟩ <;>
          simp [hq]
      rw [List.flatMap_cons, List.length_append, List.length_cons]
      omega

/-- The literal of a string is one token, with this string as its value. -/
theorem scan_quoted {s : Scanner} {cs rest : List Char}
    (h : s.Reads ('"' :: (cs.flatMap Text.quoteChar ++ '"' :: rest))) :
    s.scan = ((s.onToken 0).advance ((cs.flatMap Text.quoteChar).length + 2)).finishCooked
      .stringLiteral cs.reverse := by
  have hreads := h.onToken (n := 0)
  have hlength := hreads.length_le
  have hcs := length_le_quoted cs
  simp only [List.drop_zero, List.length_cons, List.length_append] at hlength
  have hrest : ((s.onToken 0).advance 1).cursor.rest =
      cs.flatMap Text.quoteChar ++ '"' :: rest := by
    rw [advance, Cursor.rest_advance, hreads.rest]
    rfl
  rw [scan_start h.rest (startsToken_quote _)]
  show ((s.onToken 0).advance 1).readString '"' ((s.onToken 0).remaining + 1) [] = _
  rw [readString_quoted _ [] hrest (by omega), advance_advance, List.append_nil, Nat.add_comm 1]

theorem finds_quoted {s : Scanner} {cs rest : List Char}
    (h : s.Reads ('"' :: (cs.flatMap Text.quoteChar ++ '"' :: rest))) :
    s.scan.Finds .stringLiteral rest := by
  have hsound := h.sound.advance ((cs.flatMap Text.quoteChar).length + 2)
  have hrest : (s.cursor.advance ((cs.flatMap Text.quoteChar).length + 2)).rest = rest := by
    rw [Cursor.rest_advance, h.rest, List.drop_succ_cons, List.append_cons]
    exact List.drop_left' (by simp)
  rw [scan_quoted h]
  exact ⟨rfl, rfl, hsound, hrest⟩

theorem reads_ofString (text : String) : (ofString text).Reads text.toList :=
  ⟨Cursor.sound_ofString text, rfl⟩

end Scanner

namespace TokenStream

/-- A literal is what the scanner takes it for. -/
theorem next_of_stringLiteral {t : TokenStream} (h : t.scanner.scan.token = .stringLiteral) :
    t.next = { t with scanner := t.scanner.scan, previous? := some .stringLiteral } := by
  simp only [next, resolve, h]

theorem next_of_endOfFile {t : TokenStream} (h : t.scanner.scan.token = .endOfFile) :
    t.next = { t with scanner := t.scanner.scan, previous? := some .endOfFile } := by
  simp only [next, resolve, h]

/-- A literal with nothing behind it is the only token. -/
theorem collect_of_stringLiteral {t : TokenStream} (lines : Text.LineMap) (fuel : Nat)
    (h : t.scanner.scan.Finds .stringLiteral []) :
    t.collect lines (fuel + 2) [] = ([t.next.current lines], t.scanner.scan.scan) := by
  have hnext := next_of_stringLiteral h.token
  have hend : t.next.next = { t.next with
      scanner := t.scanner.scan.scan, previous? := some .endOfFile } := by
    rw [hnext]
    exact next_of_endOfFile (Scanner.finds_end h.reads).token
  have hfirst : t.next.scanner.token = .stringLiteral := by
    rw [hnext]
    exact h.token
  have hsecond : t.next.next.scanner.token = .endOfFile := by
    rw [hend]
    exact (Scanner.finds_end h.reads).token
  rw [collect, if_neg (by rw [hfirst]; decide), collect, if_pos hsecond, hend]

end TokenStream

/-- Scanning the literal of a string finds one token, which covers the text and has this string as
its value. -/
theorem scanAll_quote (s : String) :
    Token.scanAll (Text.quote s) =
      ([{ kind := .stringLiteral, text := Text.quote s
          span := ⟨0, (Text.quote s).utf8ByteSize⟩, line := 1, column := 1, flags := {} }], []) ∧
    (TokenStream.ofString (Text.quote s)).next.scanner.value = s := by
  have htoList : (Text.quote s).toList = '"' :: (s.toList.flatMap Text.quoteChar ++ ['"']) := by
    rw [Text.quote, String.toList_ofList]
    rfl
  generalize Text.quote s = text at htoList
  have hreads : (Scanner.ofString text).Reads ('"' :: (s.toList.flatMap Text.quoteChar ++ ['"'])) :=
    htoList ▸ Scanner.reads_ofString text
  have hfirst := Scanner.scan_quoted hreads
  have hfinds := Scanner.finds_quoted hreads
  have hnext : (TokenStream.ofString text).next.scanner = (Scanner.ofString text).scan :=
    congrArg TokenStream.scanner
      (TokenStream.next_of_stringLiteral (t := TokenStream.ofString text) hfinds.token)
  have hvalue : (Scanner.ofString text).scan.value = s := by
    rw [hfirst]
    show String.ofList s.toList.reverse.reverse = s
    rw [List.reverse_reverse, String.ofList_toList]
  have hstart : (Scanner.ofString text).scan.start = 0 := by rw [hfirst]; rfl
  have hsource : (Scanner.ofString text).scan.source = text := by rw [hfirst]; rfl
  have hflags : (Scanner.ofString text).scan.flags = {} := by rw [hfirst]; rfl
  have herrors : (Scanner.ofString text).scan.errors = [] := by rw [hfirst]; rfl
  have hstop : (Scanner.ofString text).scan.stop = text.utf8ByteSize := by
    have hsize := hfinds.reads.sound.offset_add
    rwa [hfinds.reads.rest, hsource] at hsize
  have hcurrent : (TokenStream.ofString text).next.current (Text.LineMap.ofString text) =
      { kind := .stringLiteral, text, span := ⟨0, text.utf8ByteSize⟩
        line := 1, column := 1, flags := {} } := by
    simp only [TokenStream.current, hnext, hstart, hstop, hsource, hflags, hfinds.token,
      Scanner.text, Text.slice_whole, Text.LineMap.oneBased_zero]
  refine ⟨?_, hnext ▸ hvalue⟩
  obtain ⟨fuel, hfuel⟩ : ∃ fuel, text.utf8ByteSize + 1 = fuel + 2 := by
    have hsize := Text.length_le_byteSize text.toList
    rw [Text.byteSize_toList, htoList, List.length_cons] at hsize
    exact ⟨text.utf8ByteSize - 1, by omega⟩
  have hlast : (TokenStream.ofString text).collect (Text.LineMap.ofString text) (fuel + 2) [] =
      ([(TokenStream.ofString text).next.current (Text.LineMap.ofString text)],
        (Scanner.ofString text).scan.scan) :=
    TokenStream.collect_of_stringLiteral _ fuel hfinds
  rw [Token.scanAll, hfuel, hlast, hcurrent, Scanner.scan_end hfinds.reads.rest]
  show ([_], (Scanner.ofString text).scan.errors) = _
  rw [herrors]

end Erasure
