import Erasure.CommandLine.Arguments
import Erasure.CommandLine.FileTable
import Erasure.Compile
import Erasure.Report
import Erasure.Report.Json

/-!
A run of the program: read the input, compile it, write the output and print the diagnostics.
-/

namespace Erasure.CommandLine

/-- Why a run ends before anything is printed. -/
inductive RunError where
  | unreadable (path : String)
  | directoryRefused (path : String)
  | unwritable (path : String)
  deriving DecidableEq

def RunError.message : RunError → String
  | unreadable path => "failed to read " ++ path
  | directoryRefused path => "failed to create " ++ path
  | unwritable path => "failed to write " ++ path

/-- What is left of a run: the text it printed, and whether there were errors. -/
structure RunResult where
  stdout : String
  hasErrors : Bool
  deriving DecidableEq

/-- The exit code tells whether errors were reported. -/
def RunResult.exitCode (r : RunResult) : UInt8 := if r.hasErrors then 1 else 0

namespace Arguments

def compile (a : Arguments) (source : String) : Compilation :=
  Erasure.compile a.overrides a.input source

/-- What is printed about a compilation. Without `--pretty`, a terminal decides. -/
def announce (a : Arguments) (isTerminal isColored : Bool) (source : String) (c : Compilation) :
    String :=
  if a.has .json then Diagnostic.listToJson c.diagnostics ++ "\n"
  else (Report.ofSource source (a.pretty?.getD isTerminal) isColored).render c.diagnostics

end Arguments

namespace FileTable

/-- Write a file after creating the directories on the way to it; they stay if writing fails. -/
def writeWithin (t : FileTable) (path text : String) : Except RunError Unit × FileTable :=
  let parent := Path.parent path
  let created? := if parent.isEmpty then some t else t.createDirectory? parent
  match created? with
  | none => (.error (.directoryRefused parent), t)
  | some created =>
      match created.write? path text with
      | none => (.error (.unwritable path), created)
      | some written => (.ok (), written)

/-- Write the output of a compilation, if there is one. -/
def deliver (t : FileTable) (a : Arguments) (c : Compilation) : Except RunError Unit × FileTable :=
  match c.output? with
  | none => (.ok (), t)
  | some text => t.writeWithin a.outputPath text

/-- Run the program in a directory. -/
def run (t : FileTable) (a : Arguments) (isColored : Bool) :
    Except RunError RunResult × FileTable :=
  match t.read? a.input with
  | none => (.error (.unreadable a.input), t)
  | some source =>
      let c := a.compile source
      let (written, t) := t.deliver a c
      (written.map fun _ => ⟨a.announce false isColored source c, c.hasErrors⟩, t)

end FileTable
end Erasure.CommandLine
