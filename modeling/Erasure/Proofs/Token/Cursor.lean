import Mathlib.Data.String.Basic
import Erasure.Token.Cursor

/-!
Places in a text. A cursor is sound if it divides the text and its offset counts the bytes before
it. Passing over characters keeps a cursor sound, and a sound cursor is found again from its
offset. Only a step by one byte can leave the text or end inside a character.
-/

namespace Erasure

namespace Text

@[simp] theorem byteSize_nil : byteSize [] = 0 := rfl

@[simp] theorem byteSize_cons (c : Char) (cs : List Char) :
    byteSize (c :: cs) = c.utf8Size + byteSize cs := rfl

theorem byteSize_eq_utf8Len (cs : List Char) : byteSize cs = String.utf8Len cs := by
  induction cs with
  | nil => rfl
  | cons c cs ih => simp only [byteSize_cons, String.utf8Len_cons, ih, Nat.add_comm]

@[simp] theorem byteSize_append (cs ds : List Char) :
    byteSize (cs ++ ds) = byteSize cs + byteSize ds := by
  simp only [byteSize_eq_utf8Len, String.utf8Len_append]

@[simp] theorem byteSize_reverse (cs : List Char) : byteSize cs.reverse = byteSize cs := by
  simp only [byteSize_eq_utf8Len, String.utf8Len_reverse]

theorem byteSize_toList (s : String) : byteSize s.toList = s.utf8ByteSize := by
  rw [byteSize_eq_utf8Len, ← String.utf8ByteSize_ofList, String.ofList_toList]

theorem length_le_byteSize (cs : List Char) : cs.length ≤ byteSize cs := by
  induction cs with
  | nil => exact Nat.le_refl 0
  | cons c cs ih =>
      have := c.utf8Size_pos
      simp only [List.length_cons, byteSize_cons]
      omega

theorem byteSize_pos {cs : List Char} (h : cs ≠ []) : 0 < byteSize cs :=
  Nat.lt_of_lt_of_le (List.length_pos_iff.mpr h) (length_le_byteSize cs)

theorem utf8Size_eq_one_iff (c : Char) : c.utf8Size = 1 ↔ isAscii c = true := by
  rw [Char.utf8Size_eq_one_iff, isAscii, decide_eq_true_iff, UInt32.le_iff_toNat_le]
  exact Nat.lt_succ_iff.symm

/-- The text between the ends of two parts that make up its start. -/
theorem slice?_of_split (s : String) (before word rest : List Char)
    (h : before ++ word ++ rest = s.toList) :
    slice? s (byteSize before) (byteSize before + byteSize word) =
      some (String.ofList word) := by
  have hs : s = String.ofList (before ++ word ++ rest) := by rw [h, String.ofList_toList]
  have valid (cs ds : List Char) (hc : cs ++ ds = s.toList) :
      String.Pos.Raw.isValid s ⟨byteSize cs⟩ = true := by
    rw [String.Pos.Raw.isValid_eq_true_iff, String.Pos.Raw.isValid_iff_exists_take_toList]
    refine ⟨cs.length, ?_⟩
    rw [← hc, List.take_left', String.utf8ByteSize_ofList, byteSize_eq_utf8Len]
    rfl
  have hstart := valid before (word ++ rest) (by rw [← h, List.append_assoc])
  have hstop := valid (before ++ word) rest h
  rw [byteSize_append] at hstop
  simp only [slice?, hstart, hstop, Nat.le_add_right, decide_true, Bool.and_self, if_true]
  rw [hs, byteSize_eq_utf8Len, byteSize_eq_utf8Len, String.extract_of_valid]

theorem slice_of_split (s : String) (before word rest : List Char)
    (h : before ++ word ++ rest = s.toList) :
    slice s (byteSize before) (byteSize before + byteSize word) = String.ofList word := by
  rw [slice, slice?_of_split s before word rest h, Option.getD_some]

end Text

namespace Cursor

theorem next_cons {c : Cursor} {x : Char} {xs : List Char} (h : c.rest = x :: xs) :
    c.next = ⟨c.offset + x.utf8Size, x :: c.before, xs⟩ := by
  simp only [next, h]

theorem next_nil {c : Cursor} (h : c.rest = []) : c.next = c := by
  simp only [next, h]

@[simp] theorem rest_next (c : Cursor) : c.next.rest = c.rest.tail := by
  unfold next
  split <;> simp_all

@[simp] theorem rest_advance (c : Cursor) (n : Nat) : (c.advance n).rest = c.rest.drop n := by
  induction n generalizing c with
  | zero => rfl
  | succ n ih => rw [advance, ih, rest_next, List.drop_tail]

theorem advance_advance (c : Cursor) (m n : Nat) :
    (c.advance m).advance n = c.advance (m + n) := by
  induction m generalizing c with
  | zero => rw [Nat.zero_add]; rfl
  | succ m ih => rw [Nat.succ_add, advance, advance, ih]

theorem next_eq_advance (c : Cursor) : c.next = c.advance 1 := rfl

theorem advance_cons {c : Cursor} {x : Char} {xs : List Char} (h : c.rest = x :: xs) (n : Nat) :
    c.advance (n + 1) = advance ⟨c.offset + x.utf8Size, x :: c.before, xs⟩ n := by
  rw [advance, next_cons h]

theorem offset_advance (c : Cursor) (n : Nat) :
    (c.advance n).offset = c.offset + Text.byteSize (c.rest.take n) := by
  induction n generalizing c with
  | zero => rfl
  | succ n ih =>
      cases h : c.rest with
      | nil => rw [advance, ih, next_nil h, h]; simp
      | cons x xs => rw [advance_cons h, ih]; simp [Nat.add_assoc]

/-- A place at which less is left to read lies further on. -/
theorem offset_lt_advance {c : Cursor} {n : Nat}
    (h : (c.advance n).rest.length < c.rest.length) : c.offset < (c.advance n).offset := by
  have hne : c.rest.take n ≠ [] := by
    intro hnil
    rw [rest_advance] at h
    have := congrArg List.length (List.take_append_drop n c.rest)
    rw [hnil, List.nil_append] at this
    omega
  have := Text.byteSize_pos hne
  rw [offset_advance]
  omega

theorem before_advance (c : Cursor) (n : Nat) :
    (c.advance n).before = (c.rest.take n).reverse ++ c.before := by
  induction n generalizing c with
  | zero => rfl
  | succ n ih =>
      cases h : c.rest with
      | nil => rw [advance, ih, next_nil h, h]; simp
      | cons x xs => rw [advance_cons h, ih]; simp

private theorem skipWhile_go_eq_advance (p : Char → Bool) (offset : Nat)
    (before rest : List Char) :
    skipWhile.go p offset before rest =
      advance ⟨offset, before, rest⟩ (rest.takeWhile p).length := by
  induction rest generalizing offset before with
  | nil => rfl
  | cons x xs ih =>
      cases hx : p x with
      | true =>
          rw [skipWhile.go, if_pos hx, ih, List.takeWhile_cons_of_pos hx, List.length_cons,
            advance_cons rfl]
      | false =>
          rw [skipWhile.go, if_neg (by simp [hx]), List.takeWhile_cons_of_neg (by simp [hx])]
          rfl

theorem skipWhile_eq_advance (p : Char → Bool) (c : Cursor) :
    c.skipWhile p = c.advance (c.rest.takeWhile p).length :=
  skipWhile_go_eq_advance p c.offset c.before c.rest

@[simp] theorem rest_skipWhile (p : Char → Bool) (c : Cursor) :
    (c.skipWhile p).rest = c.rest.dropWhile p := by
  have h := @List.drop_left Char (c.rest.takeWhile p) (c.rest.dropWhile p)
  rwa [List.takeWhile_append_dropWhile, ← rest_advance, ← skipWhile_eq_advance] at h

/-- A step by one byte is a step by one character if that character is a single byte. -/
theorem nextByte_eq_advance {c : Cursor} (h : c.rest.head?.any Text.isAscii = true) :
    c.nextByte = c.advance 1 := by
  cases hr : c.rest with
  | nil => rw [hr] at h; exact absurd h (by simp)
  | cons x xs =>
      rw [hr] at h
      have hx : x.utf8Size = 1 := (Text.utf8Size_eq_one_iff x).mpr (by simpa using h)
      rw [← next_eq_advance, next_cons hr]
      simp only [nextByte, hr, hx, if_true]

/-- Otherwise nothing can be read after it. -/
theorem nextByte_of_not_ascii {c : Cursor} (h : c.rest.head?.any Text.isAscii = false) :
    c.nextByte = ⟨c.offset + 1, c.before, []⟩ := by
  cases hr : c.rest with
  | nil => simp only [nextByte, hr]
  | cons x xs =>
      rw [hr] at h
      have hx : x.utf8Size ≠ 1 := by
        rw [Ne, Text.utf8Size_eq_one_iff]
        simpa using h
      simp only [nextByte, hr, hx, if_false]

/-- The cursor divides the text, and its offset counts the bytes before it. -/
structure Sound (source : String) (c : Cursor) : Prop where
  split : c.before.reverse ++ c.rest = source.toList
  offset_eq : c.offset = Text.byteSize c.before

theorem sound_ofString (s : String) : Sound s (ofString s) := ⟨rfl, rfl⟩

namespace Sound

variable {source : String} {c : Cursor}

theorem advance (h : Sound source c) (n : Nat) : Sound source (c.advance n) where
  split := by
    rw [before_advance, rest_advance, ← h.split]
    simp
  offset_eq := by
    rw [offset_advance, before_advance, h.offset_eq]
    simp [Nat.add_comm]

theorem offset_add (h : Sound source c) :
    c.offset + Text.byteSize c.rest = source.utf8ByteSize := by
  rw [h.offset_eq, ← Text.byteSize_toList, ← h.split]
  simp

theorem offset_le (h : Sound source c) : c.offset ≤ source.utf8ByteSize :=
  Nat.le.intro h.offset_add

theorem isValid (h : Sound source c) : String.Pos.Raw.IsValid source ⟨c.offset⟩ := by
  rw [String.Pos.Raw.isValid_iff_exists_take_toList]
  refine ⟨c.before.reverse.length, ?_⟩
  rw [← h.split, List.take_left' rfl, String.utf8ByteSize_ofList, ← Text.byteSize_eq_utf8Len,
    Text.byteSize_reverse, ← h.offset_eq]

/-- One byte behind the end of the text, or inside a character, there is no place. -/
theorem not_isValid_succ (h : Sound source c) (hr : c.rest.head?.any Text.isAscii = false) :
    ¬ String.Pos.Raw.IsValid source ⟨c.offset + 1⟩ := by
  rw [String.Pos.Raw.isValid_iff_exists_take_toList]
  rintro ⟨i, hi⟩
  rw [String.utf8ByteSize_ofList, ← Text.byteSize_eq_utf8Len, ← h.split, List.take_append,
    Text.byteSize_append] at hi
  have hbefore : Text.byteSize (c.before.reverse.take i) +
      Text.byteSize (c.before.reverse.drop i) = c.offset := by
    rw [← Text.byteSize_append, List.take_append_drop, Text.byteSize_reverse, h.offset_eq]
  cases hi' : i - c.before.reverse.length with
  | zero =>
      rw [hi', List.take_zero, Text.byteSize_nil] at hi
      dsimp only at hi
      omega
  | succ k =>
      have hdrop : c.before.reverse.drop i = [] := List.drop_eq_nil_of_le (by omega)
      rw [hdrop, Text.byteSize_nil] at hbefore
      rw [hi'] at hi
      cases hrest : c.rest with
      | nil =>
          rw [hrest, List.take_nil, Text.byteSize_nil] at hi
          dsimp only at hi
          omega
      | cons x xs =>
          have hx : x.utf8Size ≠ 1 := by
            rw [Ne, Text.utf8Size_eq_one_iff]
            simpa [hrest] using hr
          have := x.utf8Size_pos
          rw [hrest, List.take_succ_cons, Text.byteSize_cons] at hi
          dsimp only at hi
          omega

/-- The text that a number of characters make up. -/
theorem slice_advance (h : Sound source c) (n : Nat) :
    Text.slice source c.offset (c.advance n).offset = String.ofList (c.rest.take n) := by
  have hsplit : c.before.reverse ++ c.rest.take n ++ c.rest.drop n = source.toList := by
    rw [List.append_assoc, List.take_append_drop, h.split]
  have := Text.slice_of_split source _ _ _ hsplit
  rwa [Text.byteSize_reverse, ← h.offset_eq, ← offset_advance] at this

end Sound

private theorem seek_of_split (offset : Nat) (before word rest : List Char) :
    seek (offset + Text.byteSize word) offset before (word ++ rest) =
      ⟨offset + Text.byteSize word, word.reverse ++ before, rest⟩ := by
  induction word generalizing offset before with
  | nil => cases rest <;> simp [seek]
  | cons x xs ih =>
      have hx := x.utf8Size_pos
      have hlt : ¬ offset + Text.byteSize (x :: xs) ≤ offset := by
        rw [Text.byteSize_cons]
        omega
      rw [List.cons_append, seek, if_neg hlt, Text.byteSize_cons, ← Nat.add_assoc, ih]
      simp

/-- A sound cursor is the place at its offset. -/
theorem Sound.atOffset_offset {source : String} {c : Cursor} (h : Sound source c) :
    atOffset source c.offset = c := by
  have hsplit := h.split
  have := seek_of_split 0 [] c.before.reverse c.rest
  rw [Nat.zero_add, Text.byteSize_reverse, ← h.offset_eq, hsplit] at this
  rw [atOffset, Nat.min_eq_left h.offset_le, this]
  simp

end Cursor
end Erasure
