import Erasure.Print.Context

/-!
Comments in the output. They belong to no node: the comments that are still to come are taken from
the front of a list, by statements and members for what stands before and after them on the line,
and by braces for what stands before them. Comments that are passed over are dropped.
-/

namespace Erasure

namespace SourceFile

/-- Nothing but blanks stands between two offsets. -/
def isBlankBetween (f : SourceFile) (start stop : Nat) : Bool :=
  (Text.slice? f.text start stop).any fun s => s.toList.all Text.isBlank

/-- Number of line feeds between two offsets. -/
def lineFeedsBetween (f : SourceFile) (start stop : Nat) : Nat :=
  (Text.slice f.text start stop).toList.count '\n'

/-- Whether a line ends between two offsets. -/
def breaksBetween (f : SourceFile) (start stop : Nat) : Bool :=
  (Text.slice f.text start stop).toList.any fun c => c = '\n' || c = '\r'

/-- Number of bytes between the start of a line and an offset in it, added to a number. -/
def columnFrom (f : SourceFile) (column : Nat) : Nat → Nat
  | 0 => column
  | n + 1 => if Text.byte? f.text n = some 10 then column else f.columnFrom (column + 1) n

/-- Number of bytes between the start of a line and an offset in it. -/
def columnOf (f : SourceFile) (offset : Nat) : Nat := f.columnFrom 0 offset

/-- The first offset from some on where neither a space nor a tab stands. -/
def skipBlanks (f : SourceFile) (offset : Nat) : Nat :=
  match h : Text.byte? f.text offset with
  | some c => if c = 32 || c = 9 then f.skipBlanks (offset + 1) else offset
  | none => offset
  termination_by f.text.utf8ByteSize - offset
  decreasing_by
    have hlt : offset < f.text.utf8ByteSize := by
      simp only [Text.byte?] at h
      split at h
      · rename_i hpos
        simpa [String.Pos.Raw.lt_iff] using hpos
      · exact absurd h (by simp)
    omega

/-- The offset after the blanks, one separator and the blanks that follow an offset; tells if
there was a separator. -/
def skipSeparator (f : SourceFile) (offset : Nat) : Nat × Bool :=
  let start := f.skipBlanks offset
  match Text.byte? f.text start with
  | some c => if c = 44 || c = 59 then (f.skipBlanks (start + 1), true) else (start, false)
  | none => (start, false)

end SourceFile

namespace Print

/-- Directives are no comments of the program, and on demand only pinned comments stay. -/
def isKept (c : Comment) : Print Bool := do
  let f ← file
  let o ← options
  return !f.isDirectivePosition c.start && (!o.removeComments || c.isPinned f.text)

def comment (c : Comment) : Print Unit := do
  let f ← file
  let text := c.text f.text
  if c.isBlock && text.toList.contains '\n' then
    let indent := (← get).writer.indentation
    write (Comment.reindent text (f.columnOf c.start) indent)
  else write (String.ofList (Text.dropEndWhile Text.isBlank text.toList))

def pending : Print (List Comment) := return (← get).pending

def setPending (cs : List Comment) : Print Unit := modify fun s => { s with pending := cs }

/-- Drop the comments that start before an offset. -/
def skipComments (offset : Nat) : Print Unit := do
  setPending ((← pending).dropWhile fun c => c.start < offset)

/-- Comments, last one first, that lead up to an offset with only blanks between them. -/
def attached (f : SourceFile) : Nat → List Comment → List Comment
  | _, [] => []
  | offset, c :: cs =>
      if f.isBlankBetween c.stop offset then c :: attached f c.start cs else []

/-- Print the comments right before an offset, and drop those before them. -/
def leadingComments (offset : Nat) : Print Unit := do
  let (before, after) := (← pending).span fun c => c.stop ≤ offset
  (attached (← file) offset before.reverse).reverse.forM fun c => do
    if ← isKept c then
      comment c
      if c.endsLine || !c.isBlock then line else space
  setPending after

/-- Print the comments on the line from an offset on, for at most some number of them. One separator
is passed over. -/
def trailingFrom : Nat → Nat → Bool → Print Unit
  | 0, _, _ => pure ()
  | fuel + 1, offset, isSeparated => do
      let f ← file
      let (start, isSeparated) :=
        if isSeparated then (f.skipBlanks offset, true) else f.skipSeparator offset
      match (← pending).dropWhile fun c => c.start ≠ start with
      | [] => pure ()
      | c :: rest =>
          if c.isBlock && f.breaksBetween c.start c.stop then pure ()
          else
            setPending rest
            if ← isKept c then
              space
              comment c
              if c.isBlock then trailingFrom fuel c.stop isSeparated else line
            else trailingFrom fuel c.stop isSeparated

/-- Print the comments on the line after an offset. -/
def trailingComments (offset : Nat) : Print Unit := do
  trailingFrom ((← pending).length) offset false

/-- Print the comment after an opening brace, if it ends the line. -/
def braceComments (offset : Nat) : Print Unit := do
  let start := (← file).skipBlanks (offset + 1)
  if ((← pending).find? fun c => c.start = start).any Comment.endsLine then
    trailingComments (offset + 1)

/-- Print the comments before a closing brace, or the end of the file, that have a line of their
own. -/
def closingComments (offset : Nat) : Print Unit := do
  let (before, after) := (← pending).span fun c => c.stop ≤ offset
  setPending after
  before.forM fun c => do
    if c.startsLine then
      if ← isKept c then
        line
        comment c
        line

/-- Run a step with the comments around it. If it prints nothing, neither do they. Tells if there
was something to print. -/
def commented (span : Span) (step : Print Unit) : Print Bool := do
  let start ← mark
  leadingComments span.start
  let body ← mark
  step
  if ← wroteSince body then
    skipComments span.stop
    trailingComments span.stop
    return true
  else
    rewind start
    skipComments span.stop
    return false

/-- The comments at the start of a file that no empty line divides. -/
def headerFrom (f : SourceFile) (firstToken : Nat) : Option Nat → List Comment → List Comment
  | _, [] => []
  | last?, c :: cs =>
      let isApart := match last? with
        | some last => 2 ≤ f.lineFeedsBetween last c.start
        | none => !f.isBlankBetween 0 c.start
      if firstToken < c.stop || isApart then [] else c :: headerFrom f firstToken (some c.stop) cs

/-- Print the comments at the start of a file that an empty line divides from the first statement.
They stay in front of what is added to the file. -/
def headerComments : Print Unit := do
  let f ← file
  let firstToken := (f.statements.head?.map fun n => n.span.start).getD f.endOfFile
  let header := headerFrom f firstToken none f.comments
  match header.getLast? with
  | none => pure ()
  | some last =>
      if 2 ≤ f.lineFeedsBetween last.stop firstToken then
        header.forM fun c => do
          if ← isKept c then
            comment c
            line
        setPending (f.comments.drop header.length)

end Print
end Erasure
