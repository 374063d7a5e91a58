import Erasure.Print.Expression
import Erasure.Print.Lowered
import Erasure.Print.Module

/-!
Printing of statements.
-/

namespace Erasure

/-- A statement that is a block. -/
def Form.isBlockStatement : Form → Bool
  | .blockStmt _ => true
  | _ => false

def Form.isIfStatement : Form → Bool
  | .ifStmt _ _ _ => true
  | _ => false

namespace Print
variable (print : Slot → Node → Print Bool)

/-- The statement that another one consists of: a block on the same line, any other on the next. A
statement that is erased leaves an empty one. -/
def embedded (n : Node) : Print Unit :=
  if n.form.isBlockStatement then do
    space
    discard (print .statement n)
  else indented do
    line
    withTarget .nested do
      if !(← print .statement n) then write ";"

/-- A keyword with an expression in parentheses. -/
def head (keyword : String) (n : Node) : Print Unit := do
  write (keyword ++ " (")
  expression print n
  write ")"

def ifStatement (condition thenBranch : Node) (elseBranch? : Option Node) : Print Unit := do
  head print "if" condition
  embedded print thenBranch
  elseBranch?.forM fun elseBranch => do
    line
    write "else"
    if elseBranch.form.isIfStatement then
      space
      discard (print .statement elseBranch)
    else embedded print elseBranch

def doStatement (body condition : Node) : Print Unit := do
  write "do"
  embedded print body
  if body.form.isBlockStatement then space else line
  head print "while" condition
  write ";"

def forInitializer (n : Node) : Print Unit :=
  match n.form with
  | .variableList kind declarations => variableList print kind declarations
  | _ => expression print n

/-- A part of the head of a loop, after its semicolon. -/
def forPart (n? : Option Node) : Print Unit := do
  write ";"
  n?.forM fun n => do
    space
    expression print n

def forStatement (n : Node) (initial? condition? incrementor? : Option Node) (body : Node) :
    Print Unit :=
  inScopeOf n.id do
    write "for ("
    initial?.forM (forInitializer print)
    forPart print condition?
    forPart print incrementor?
    write ")"
    embedded print body

/-- A loop over an object. The step prints the object. -/
def forEach (n : Node) (opening keyword : String) (initial body : Node) (step : Print Unit) :
    Print Unit :=
  inScopeOf n.id do
    write opening
    forInitializer print initial
    write keyword
    step
    write ")"
    embedded print body

def jump (keyword : String) (label? : Option Identifier) : Print Unit := do
  write keyword
  label?.forM fun label => do
    space
    identifier label
  write ";"

def returnStatement (n? : Option Node) : Print Unit := do
  write "return"
  n?.forM fun n => do
    space
    expression print n
  write ";"

/-- A clause of a switch. -/
def caseClause (n : Node) : Print Unit :=
  match n.form with
  | .caseClause subject? statements isSingleLine => do
      leadingComments n.span.start
      match subject? with
      | some subject =>
          write "case "
          expression print subject
          write ":"
      | none => write "default:"
      withTarget .nested do
        if isSingleLine && statements.length = 1 then inlineStatements print statements
        else indented do
          line
          statementList print statements
  | _ => pure ()

def switchStatement (n subject : Node) (clauses : List Node) : Print Unit :=
  inScopeOf n.id do
    head print "switch" subject
    write " \x7b"
    indented do
      line
      clauses.forM fun clause => do
        caseClause print clause
        line
      closingComments (n.span.stop - 1)
    line
    write "\x7d"

def labeledStatement (label : Identifier) (body : Node) : Print Unit := do
  identifier label
  write ": "
  if !(← print .statement body) then write ";"

def catchBinding (n : Node) : Print Unit :=
  match n.form with
  | .variableDeclaration name _ _ _ => do
      write "("
      binding print name
      write ") "
  | _ => pure ()

def catchClause (n : Node) : Print Unit :=
  match n.form with
  | .catchClause binding? body => inScopeOf n.id do
      write "catch "
      binding?.forM (catchBinding print)
      block print body
  | _ => pure ()

def tryStatement (body : Node) (handler? finalizer? : Option Node) : Print Unit := do
  write "try "
  block print body
  handler?.forM fun handler => do
    line
    catchClause print handler
  finalizer?.forM fun finalizer => do
    line
    write "finally "
    block print finalizer

/-- A statement that is an expression. It stands in parentheses if it would be read as a block or
as a declaration. -/
def expressionStatement (n : Node) : Print Unit := do
  if n.firstPrinted.form.isStatementLike then
    write "("
    expression print n
    write ")"
  else expression print n
  write ";"

def statementForm (n : Node) : Print Unit :=
  match n.form with
  | .emptyStmt => write ";"
  | .blockStmt body => block print body
  | .exprStmt inner => expressionStatement print inner
  | .varStmt ms list =>
      match list.form with
      | .variableList kind declarations => variableStatement print ms kind declarations
      | _ => pure ()
  | .functionStmt ms name? func => functionDeclaration print ms name? func
  | .classStmt cls => classDeclaration print cls
  | .enumStmt ms name members => enumDeclaration print ms name members
  | .moduleStmt declaration => moduleStatement print declaration
  | .importStmt _ clause? specifier attributes? =>
      importDeclaration print n clause? specifier attributes?
  | .importEqualsStmt ms isTypeOnly name target =>
      importAssignment isTypeOnly name target ms.isExport
  | .exportStmt _ isTypeOnly clause? specifier? attributes? =>
      exportDeclaration print n isTypeOnly clause? specifier? attributes?
  | .exportAssignment isEquals inner => exportAssignment print isEquals inner
  | .ifStmt condition thenBranch elseBranch? => ifStatement print condition thenBranch elseBranch?
  | .doStmt body condition => doStatement print body condition
  | .whileStmt condition body => do
      head print "while" condition
      embedded print body
  | .forStmt initial? condition? incrementor? body =>
      forStatement print n initial? condition? incrementor? body
  | .forInStmt initial inner body =>
      forEach print n "for (" " in " initial body (expression print inner)
  | .forOfStmt isAwait initial inner body =>
      forEach print n (if isAwait then "for await (" else "for (") " of " initial body
        (operand print .assignment inner)
  | .continueStmt label? => jump "continue" label?
  | .breakStmt label? => jump "break" label?
  | .returnStmt inner? => returnStatement print inner?
  | .withStmt inner body => do
      head print "with" inner
      embedded print body
  | .switchStmt subject clauses => switchStatement print n subject clauses
  | .labeledStmt label body => labeledStatement print label body
  | .throwStmt inner => do
      write "throw "
      expression print inner
      write ";"
  | .tryStmt body handler? finalizer? => tryStatement print body handler? finalizer?
  | .debuggerStmt => write "debugger;"
  | _ => pure ()

/-- Print a statement with its comments and, in a CommonJS module, with the assignments that export
what it declares. Tells if the statement left anything. -/
def statement (n : Node) : Print Bool := do
  let isPrinted ← commented n.span (statementForm print n)
  if isPrinted && (← target) = .commonJS then declaredExports n
  return isPrinted

end Print
end Erasure
