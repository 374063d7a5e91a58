import Erasure.Text.Basic

/-!
Output text with indentation. The indentation of a line is written with its first text, so that the
level can change between lines. Text that spans lines is taken over as it is.
-/

namespace Erasure

structure Writer where
  output : String := ""
  indentLevel : Nat := 0
  /-- Nothing is written on the current line. -/
  atLineStart : Bool := true
  deriving Inhabited

namespace Writer

/-- A point of the output. -/
structure Mark where
  length : Nat
  atLineStart : Bool
  deriving DecidableEq, Inhabited

/-- The indentation of the current level. -/
def indentation (w : Writer) : String := "".pushn ' ' (4 * w.indentLevel)

def length (w : Writer) : Nat := w.output.utf8ByteSize

def isEmpty (w : Writer) : Bool := w.output.isEmpty

def write (w : Writer) (text : String) : Writer :=
  if text.isEmpty then w
  else if w.atLineStart then
    { w with output := w.output.pushn ' ' (4 * w.indentLevel) ++ text, atLineStart := false }
  else { w with output := w.output ++ text }

/-- End the current line. Nothing happens at the start of a line, so there are no empty lines. -/
def line (w : Writer) : Writer :=
  if w.atLineStart then w else { w with output := w.output.push '\n', atLineStart := true }

def indent (w : Writer) : Writer := { w with indentLevel := w.indentLevel + 1 }

def dedent (w : Writer) : Writer := { w with indentLevel := w.indentLevel - 1 }

def mark (w : Writer) : Mark := ⟨w.length, w.atLineStart⟩

/-- Drop what was written since a mark. -/
def rewind (w : Writer) (m : Mark) : Writer :=
  if m.length < w.length then
    { w with
      output := String.ofList (Text.takeBytes m.length w.output.toList)
      atLineStart := m.atLineStart }
  else { w with atLineStart := m.atLineStart }

def wroteSince (w : Writer) (m : Mark) : Bool := m.length < w.length

/-- The finished text, whose last line is ended. -/
def finish (w : Writer) : String := w.line.output

end Writer
end Erasure
