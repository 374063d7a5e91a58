import Erasure.CommandLine.Run

/-!
The command line program.
-/

namespace Erasure.CommandLine

def usage : String := "Usage: erasure [OPTIONS] <INPUT> [OUTPUT]"

def Refusal.message : Refusal → String
  | missingInput => "error: the input is missing"
  | unknownArgument => "error: unexpected argument"
  | invalidValue => "error: invalid value"
  | repeatedOption => "error: an option was given twice"
  | unexpectedValue => "error: unexpected value for a flag"
  | helpRequested => "Compile a single file to a program without types"
  | versionRequested => "erasure"

/-- Print why there is no compilation. -/
def refuse (r : Refusal) : IO UInt8 := do
  match r with
  | .helpRequested => IO.println (r.message ++ "\n\n" ++ usage) *> return 0
  | .versionRequested => IO.println r.message *> return 0
  | _ => IO.eprintln (r.message ++ "\n\n" ++ usage) *> return 2

/-- An action whose failure ends the run. -/
def orFail {α : Type} (e : RunError) (action : IO α) : ExceptT RunError IO α := do
  match ← (action.toBaseIO : BaseIO _) with
  | .ok a => return a
  | .error _ => throw e

/-- Run the program on the files of the working directory. -/
def runOnDisk (a : Arguments) : ExceptT RunError IO RunResult := do
  let source ← orFail (.unreadable a.input) (IO.FS.readFile a.input)
  let c := a.compile source
  if let some text := c.output? then
    let parent := Path.parent a.outputPath
    unless parent.isEmpty do
      orFail (.directoryRefused parent) (IO.FS.createDirAll parent)
    orFail (.unwritable a.outputPath) (IO.FS.writeFile a.outputPath text)
  let isTerminal ← (← IO.getStdout).isTty
  return ⟨a.announce isTerminal isTerminal source c, c.hasErrors⟩

end Erasure.CommandLine

open Erasure.CommandLine

def main (args : List String) : IO UInt32 := do
  match Arguments.parse args with
  | .error r => return (← refuse r).toUInt32
  | .ok a =>
      match ← (runOnDisk a).run with
      | .error e => IO.eprintln ("error: " ++ e.message) *> return 2
      | .ok result => IO.print result.stdout *> return result.exitCode.toUInt32
