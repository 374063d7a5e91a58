import Erasure.Diagnostic
import Erasure.Text.LineMap

/-!
Diagnostics as text for people: one line each, or with the line of the source they speak of.
-/

namespace Erasure

/-- Looks of a piece of text on a terminal. -/
inductive TextStyle where
  | red | yellow | blue | cyan | gray | blackOnWhite | onWhite
  deriving DecidableEq

namespace TextStyle

/-- Parameters of the escape sequence that turns a style on. -/
def parameters : TextStyle → String
  | red => "31"
  | yellow => "33"
  | blue => "34"
  | cyan => "36"
  | gray => "90"
  | blackOnWhite => "47;30"
  | onWhite => "47"

def start (s : TextStyle) : String := "\x1b[" ++ s.parameters ++ "m"

def reset : String := "\x1b[0m"

/-- Text in a style. Where the text itself ends all styles, this one is turned on again. -/
def paint (s : TextStyle) (text : String) : String :=
  let kept := Text.replace reset.toList (reset ++ s.start).toList text.toList
  s.start ++ String.ofList kept ++ reset

end TextStyle

namespace Severity

def label : Severity → String
  | error => "error"
  | warning => "warning"
  | suggestion => "suggestion"
  | message => "message"

def style : Severity → TextStyle
  | error => .red
  | warning => .yellow
  | suggestion => .blue
  | message => .cyan

end Severity

/-- How the diagnostics of one source are shown. -/
structure Report where
  source : String
  lineMap : Text.LineMap
  /-- Show the line of the source under each diagnostic. -/
  isPretty : Bool
  /-- Paint the parts of a pretty report. -/
  isColored : Bool

namespace Report

def ofSource (source : String) (isPretty isColored : Bool) : Report :=
  { source, lineMap := Text.LineMap.ofString source, isPretty, isColored }

def paint (r : Report) (s : TextStyle) (text : String) : String :=
  if r.isColored then s.paint text else text

/-- Text moved to the right end of a field. -/
def padStart (width : Nat) (text : String) : String :=
  "".pushn ' ' (width - text.length) ++ text

/-- Where the line ends that starts at an offset: before its line break. -/
def lineStop (r : Report) (start : Nat) : Nat :=
  let rest := (Text.slice r.source start r.source.utf8ByteSize).toList
  start + Text.byteSize (rest.takeWhile fun c => c != '\n' && c != '\r')

/-- Blank text of the same width; tabs stay. -/
def blanks (text : String) : String := text.map fun c => if c = '\t' then c else ' '

/-- The line of a range with the range marked under it, as far as it lies on that line. There is
none if the range cuts a character. -/
def snippet? (r : Report) (start length : Nat) : Option String := do
  let line := r.lineMap.lineOf start
  let lineStart := r.lineMap.lineStart line
  let lineStop := r.lineStop lineStart
  let text ← Text.slice? r.source lineStart lineStop
  let markStart := max lineStart (min start lineStop)
  let markStop := min (markStart + length) lineStop
  let before ← Text.slice? r.source lineStart markStart
  let marked ← Text.slice? r.source markStart markStop
  let underline := blanks before ++ r.paint .red ("".pushn '~' (max 1 marked.length))
  let number := padStart 3 (toString (line + 1))
  let gutter := r.paint .blackOnWhite number
  let blankGutter := r.paint .onWhite ("".pushn ' ' number.length)
  return "\n\n  " ++ gutter ++ "   " ++ text ++ "\n  " ++ blankGutter ++ "   " ++ underline

/-- Line and column of a diagnostic: its own, or else those of its start. -/
def position (r : Report) (d : Diagnostic) : Nat × Nat :=
  match d.line?, d.character? with
  | some line, some column => (line, column)
  | _, _ => r.lineMap.oneBased r.source d.start

/-- One diagnostic, without a line break at its end. -/
def format (r : Report) (d : Diagnostic) : String :=
  let file := d.file?.getD "<unknown>"
  let (line, column) := r.position d
  let code := s!"TS{d.code}"
  if r.isPretty then
    r.paint .cyan s!"{file}:{line}:{column}" ++ " - " ++
      r.paint d.severity.style d.severity.label ++
      " " ++ r.paint .gray code ++ ": " ++ d.text ++ (r.snippet? d.start d.length).getD ""
  else s!"{file}({line},{column}): {d.severity.label} {code}: {d.text}"

/-- The last line of a pretty report, which counts the errors. -/
def summary (ds : List Diagnostic) : String :=
  match (ds.filter Diagnostic.isError).length with
  | 0 => ""
  | 1 => "Found 1 error.\n"
  | n => s!"Found {n} errors.\n"

/-- All diagnostics in order; a pretty report has an empty line after each of them. -/
def render (r : Report) (ds : List Diagnostic) : String :=
  if r.isPretty then String.join (ds.map fun d => r.format d ++ "\n\n") ++ summary ds
  else String.join (ds.map fun d => r.format d ++ "\n")

end Report
end Erasure
