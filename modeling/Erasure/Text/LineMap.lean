import Erasure.Text.Basic

/-!
Lines of a text. A line ends at a line feed, a carriage return, or the two together.
-/

namespace Erasure.Text

/-- Offsets at which lines start after the first one, for the characters from `offset` on. -/
def lineStartsFrom (offset : Nat) : List Char → List Nat
  | [] => []
  | '\r' :: '\n' :: cs => (offset + 2) :: lineStartsFrom (offset + 2) cs
  | c :: cs =>
      let next := offset + c.utf8Size
      if c = '\n' || c = '\r' then next :: lineStartsFrom next cs else lineStartsFrom next cs

/-- Offsets at which the lines of a text start, in order. -/
structure LineMap where
  starts : List Nat

/-- A line and a column, both from zero; columns count UTF-16 code units. -/
structure Position where
  line : Nat
  character : Nat
  deriving DecidableEq

namespace LineMap

def ofString (s : String) : LineMap := ⟨0 :: lineStartsFrom 0 s.toList⟩

def lineCount (m : LineMap) : Nat := m.starts.length

/-- The line that holds an offset: the last one that starts at or before it. -/
def lineOf (m : LineMap) (offset : Nat) : Nat := (m.starts.takeWhile (· ≤ offset)).length - 1

/-- Where a line starts, zero for a line past the end. -/
def lineStart (m : LineMap) (line : Nat) : Nat := m.starts[line]?.getD 0

/-- The position of an offset, taken at the end of the text if it lies beyond. An offset inside a
character is counted in bytes. -/
def position (m : LineMap) (s : String) (offset : Nat) : Position :=
  let stop := min offset s.utf8ByteSize
  let line := m.lineOf stop
  let start := m.lineStart line
  ⟨line, ((slice? s start stop).map length16).getD (stop - start)⟩

/-- Line and column counted from one, as they are shown to people. -/
def oneBased (m : LineMap) (s : String) (offset : Nat) : Nat × Nat :=
  let p := m.position s offset
  (p.line + 1, p.character + 1)

end LineMap
end Erasure.Text
