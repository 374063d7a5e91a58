import Erasure.Text.Character

/-!
A place in a text: the characters passed, nearest first, and those to come, with the byte offset
between them.
-/

namespace Erasure

structure Cursor where
  offset : Nat
  before : List Char
  rest : List Char

namespace Cursor

def ofString (s : String) : Cursor := ⟨0, [], s.toList⟩

/-- Pass over one character. -/
def next (c : Cursor) : Cursor :=
  match c.rest with
  | [] => c
  | x :: xs => ⟨c.offset + x.utf8Size, x :: c.before, xs⟩

/-- Pass over a number of characters. -/
def advance (c : Cursor) : Nat → Cursor
  | 0 => c
  | n + 1 => c.next.advance n

/-- Pass over the longest run of characters with a property. -/
def skipWhile (p : Char → Bool) (c : Cursor) : Cursor := go c.offset c.before c.rest
where
  go (offset : Nat) (before : List Char) : List Char → Cursor
    | [] => ⟨offset, before, []⟩
    | x :: xs =>
        if p x then go (offset + x.utf8Size) (x :: before) xs else ⟨offset, before, x :: xs⟩

/-- Go on by one byte. Inside a character and beyond the end nothing can be read any more. -/
def nextByte (c : Cursor) : Cursor :=
  match c.rest with
  | x :: xs =>
      if x.utf8Size = 1 then ⟨c.offset + 1, x :: c.before, xs⟩ else ⟨c.offset + 1, c.before, []⟩
  | [] => { c with offset := c.offset + 1 }

/-- Go on to an offset at or after the cursor; nothing can be read from inside a character. -/
def seek (target offset : Nat) (before : List Char) : List Char → Cursor
  | [] => ⟨target, before, []⟩
  | x :: xs =>
      if target ≤ offset then
        if target = offset then ⟨offset, before, x :: xs⟩ else ⟨target, before, []⟩
      else seek target (offset + x.utf8Size) (x :: before) xs

/-- The place at an offset of a text, or at its end if the offset is beyond. -/
def atOffset (s : String) (offset : Nat) : Cursor :=
  seek (min offset s.utf8ByteSize) 0 [] s.toList

/-- Only blanks stand between the start of the line and the cursor. -/
def startsLine (c : Cursor) : Bool :=
  match c.before.dropWhile Text.isInlineBlank with
  | [] => true
  | x :: _ => Text.isLineBreak x

/-- The line ends after blanks only. -/
def endsLine (c : Cursor) : Bool :=
  match c.rest.dropWhile Text.isInlineBlank with
  | [] => false
  | x :: _ => Text.isLineBreak x

end Cursor
end Erasure
