import Erasure.Print.Statement

/-!
Printing of a file.
-/

namespace Erasure

namespace Print

/-- Print a node as something, given how to print the nodes below it. -/
def node (print : Slot → Node → Print Bool) : Slot → Node → Print Bool
  | .operand required besideCoalesce, n => do
      operandForm print required besideCoalesce n
      return true
  | .statement, n => statement print n
  | .binding container?, n => do
      bindingTarget print container? n
      return true
  | .namespace_ isExported, n => do
      namespaceDeclaration print n isExported
      return true

/-- Print a node, as deep as the fuel allows. -/
def nodeWithin : Nat → Slot → Node → Print Bool
  | 0, _, _ => return false
  | fuel + 1, slot, n => node (nodeWithin fuel) slot n

def isUseStrict (n : Node) : Bool :=
  match n.form with
  | .exprStmt inner =>
      match inner.form with
      | .stringLiteral _ value => value = "use strict"
      | _ => false
  | _ => false

/-- Whether a file is to be run in strict mode and its syntax does not say so. -/
def needsStrict (j : PrintJob) : Bool :=
  j.isCommonJS ||
    (!(j.file.isExternalModule && j.options.moduleKind.isESModule) && j.options.alwaysStrict)

/-- The directives of a file, with `"use strict"` added if it needs it. -/
def prologue (print : Slot → Node → Print Bool) (directives : List Node) : Print Unit := do
  if needsStrict (← job) && !directives.any isUseStrict then
    write "\"use strict\";"
    line
  statementList print directives

def sourceFile (print : Slot → Node → Print Bool) (f : SourceFile) : Print Unit := do
  let count := prologueLength f.statements
  headerComments
  prologue print (f.statements.take count)
  if (← job).isCommonJS then commonJSPreamble f.statements
  statementList print (f.statements.drop count)
  closingComments f.endOfFile

end Print

/-- The text of a job. Nodes on a path have different numbers, so their count bounds its length. -/
def PrintJob.text (j : PrintJob) : String :=
  let place : PrintPlace := {
    job := j, scope := Bindings.rootScope, currentEnum? := none
    target := if j.isCommonJS then .commonJS else .topLevel }
  let step := Print.sourceFile (Print.nodeWithin j.file.nodeCount) j.file
  (step.run place { pending := j.file.comments }).2.writer.finish

/-- The file without its types. -/
def SourceFile.print (f : SourceFile) (b : Bindings) (o : Options) : String :=
  (PrintJob.ofFile f b o).text

end Erasure
