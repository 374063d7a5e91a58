import Erasure.Print.Pattern
import Erasure.Print.Trivia

/-!
Printing of statement lists, blocks and functions.
-/

namespace Erasure.Print

/-- A statement that is a string, such as `"use strict"`. -/
def isDirective (n : Node) : Bool :=
  match n.form with
  | .exprStmt inner =>
      match inner.form with
      | .stringLiteral _ _ => true
      | _ => false
  | _ => false

/-- Number of strings at the start of a list of statements. -/
def prologueLength (statements : List Node) : Nat := (statements.takeWhile isDirective).length

/-- A call of the constructor of the base class. -/
def isSuperCall (n : Node) : Bool :=
  match n.form with
  | .exprStmt inner =>
      match inner.form with
      | .call callee _ _ _ =>
          match callee.form with
          | .superExpr => true
          | _ => false
      | _ => false
  | _ => false

/-- Number of statements before those that are added to a function: its strings, or in a derived
class all up to the call of the base class. -/
def injectionPoint (isDerived : Bool) (statements : List Node) : Nat :=
  match (statements.findIdx? isSuperCall).filter fun _ => isDerived with
  | some index => index + 1
  | none => prologueLength statements

section
variable (print : Slot → Node → Print Bool)

/-- Statements on lines of their own. Those that are erased leave no line. -/
def statementList (statements : List Node) : Print Unit :=
  statements.forM fun n => do
    if ← print .statement n then line

/-- Statements after a brace on the same line. -/
def inlineStatements (statements : List Node) : Print Unit :=
  statements.forM fun n => do
    let start ← mark
    space
    if !(← print .statement n) then rewind start

/-- Lines in braces, with the comments at both of them. The braces stand at the ends of a span. -/
def braced (span : Span) (step : Print Unit) : Print Unit := do
  write "\x7b"
  braceComments span.start
  indented do
    line
    step
    closingComments (span.stop - 1)
  line
  write "\x7d"

def block (n : Node) : Print Unit :=
  match n.form with
  | .block statements isMultiLine _ => inScopeOf n.id do
      if statements.isEmpty && !isMultiLine then
        skipComments n.span.stop
        write "\x7b \x7d"
      else braced n.span (withTarget .nested (statementList print statements))
  | _ => pure ()

/-- The body of a function, with assignments added to it. A body on one line stays on it, unless
something is added. -/
def functionBody (n : Node) (added : List FieldAssignment) (isDerived : Bool) : Print Unit :=
  match n.form with
  | .block statements isMultiLine isSingleLine => withTarget .nested do
      if added.isEmpty && isSingleLine && !isMultiLine then
        write "\x7b"
        inlineStatements print statements
        skipComments n.span.stop
        write " \x7d"
      else
        let point := injectionPoint isDerived statements
        braced n.span do
          statementList print (statements.take point)
          added.forM fun a => do
            fieldAssignment print a
            line
          statementList print (statements.drop point)
  | _ => pure ()

def parameter (n : Node) : Print Unit := do
  let p := n.parameter
  if p.isRest then write "..."
  binding print p.name
  initializer print p.initializer

/-- Parameters without their types. -/
def parameters (ns : List Node) : Print Unit := do
  write "("
  commaSeparated (parameter print) (ns.filter fun n => !n.parameter.isThis)
  write ")"

/-- Parameters and body of a function, in its scope. -/
def signatureAndBody (n body : Node) (added : List FieldAssignment) (isDerived : Bool) :
    Print Unit :=
  inScopeOf n.id do
    parameters print n.func.parameters
    space
    functionBody print body added isDerived

/-- A function. One without body leaves nothing. -/
def function (n : Node) (name? : Option String) : Print Unit := do
  let f := n.func
  if let some body := f.body then
    if f.isAsync then write "async "
    write "function"
    if f.isGenerator then write "*"
    space
    name?.forM write
    signatureAndBody print n body [] false

/-- A method. The keyword is `get` or `set`. -/
def method (keyword? : Option String) (key n : Node) : Print Unit := do
  let f := n.func
  if let some body := f.body then
    if f.isAsync then write "async "
    keyword?.forM fun keyword => do write keyword; space
    if f.isGenerator then write "*"
    propertyKey print key
    signatureAndBody print n body [] false

def functionExpression (name? : Option Identifier) (n : Node) : Print Unit := do
  function print n (name?.map (← file).identifierText)

/-- The name of a declaration. A default export of a CommonJS module gets one. -/
def declaredName? (name? : Option Identifier) (isExported : Bool) : Print (Option String) := do
  let j ← job
  return match name? with
    | some name => some (j.file.identifierText name)
    | none => if isExported && j.isCommonJS then j.linkage.defaultName? else none

/-- The keywords before an exported declaration. -/
def exportKeywords (ms : Modifiers) : Print Unit := do
  if ms.isExport && (← target) = .topLevel then
    write "export "
    if ms.isDefault then write "default "

/-- A declaration of a function. Those without body leave nothing. -/
def functionDeclaration (ms : Modifiers) (name? : Option Identifier) (n : Node) : Print Unit := do
  if n.func.body.isNone || ms.isAmbient then pure ()
  else
    exportKeywords ms
    let name? ← declaredName? name? ms.isExport
    function print n name?
    match ← target, name? with
    | .namespace_ owner, some name =>
        if ms.isExport then
          line
          write (Text.memberAccess owner name ++ " = " ++ name ++ ";")
    | _, _ => pure ()

/-- An arrow function. Its expression stands in parentheses if it would be read as a block. -/
def arrowFunction (n : Node) (f : FunctionLike) (isBare : Bool) : Print Unit :=
  inScopeOf n.id <| withTarget .nested do
    if f.isAsync then write "async "
    match f.parameters.filter fun _ => isBare with
    | [p] => binding print p.parameter.name
    | _ => parameters print f.parameters
    write " => "
    if let some body := f.body then
      if body.form.isBlock then functionBody print body [] false
      else if body.firstPrinted.form.isObject then
        write "("
        value print body
        write ")"
      else value print body

end
end Erasure.Print
