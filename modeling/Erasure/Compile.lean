import Erasure.Check.File
import Erasure.Directive
import Erasure.Parse.Grammar
import Erasure.Print.File
import Erasure.Text.LineMap

/-!
Compilation of one file: its errors, and the program without types.
-/

namespace Erasure

structure Compilation where
  /-- The printed program, unless the options ask for none. -/
  output? : Option String
  /-- Syntax errors, or else the other errors by position. -/
  diagnostics : List Diagnostic

namespace Compilation

def errors (c : Compilation) : List Diagnostic := c.diagnostics.filter Diagnostic.isError

def hasErrors (c : Compilation) : Bool := c.diagnostics.any Diagnostic.isError

end Compilation

/-- A diagnostic with its file and its line and column, which count from one. -/
def Diagnostic.located (fileName source : String) (m : Text.LineMap) (d : Diagnostic) :
    Diagnostic :=
  let (line, character) := m.oneBased source d.start
  { d with
    file? := some (d.file?.getD fileName), line? := some line, character? := some character }

/-- Compile a source with options. The directives are left out of the output. -/
def compileWithin (directives : List Span) (o : Options) (fileName source : String) :
    Compilation :=
  let (parsed, syntaxErrors) := parseSource fileName source
  let file := { parsed with directiveSpans := directives }
  let bindings := file.bind
  let diagnostics :=
    if syntaxErrors.isEmpty then Diagnostic.sort (bindings.errors ++ file.check bindings o)
    else syntaxErrors
  let isSkipped := o.noEmit || (o.noEmitOnError && diagnostics.any Diagnostic.isError)
  let lineMap := Text.LineMap.ofString source
  { output? := if isSkipped then none else some (file.print bindings o)
    diagnostics := diagnostics.map (Diagnostic.located fileName source lineMap) }

/-- Compile a source with options; its directives are comments like others. -/
def compileWith (o : Options) (fileName source : String) : Compilation :=
  compileWithin [] o fileName source

/-- Compile a source with the options of its directives, changed by some overrides. -/
def compile (overrides : Options → Options) (fileName source : String) : Compilation :=
  let directives := DirectiveSet.ofString source
  compileWithin (directives.directives.map Directive.span) (overrides directives.options) fileName
    source

end Erasure
