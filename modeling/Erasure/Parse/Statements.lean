import Erasure.Parse.Declarations

/-!
Statements.
-/

namespace Erasure.Parse

variable (g : Grammar)

/-- A word follows an expression that is a word, too. -/
def isStrayWord (e : Node) : Parse Bool := do
  if e.identifier?.isNone || (← canEndStatement) then return false else isIdentifierOrKeyword

/-- The end of an expression statement. Two words in a row are reported at the first one, and the
second one starts the next statement. -/
def expressionEnd (e : Node) : Parse Unit := do
  if ← isStrayWord e then errorAt .unexpectedKeyword e.span [] else semicolon

def expressionStatement (start : Nat) : Parse Node := do
  let e ← expression g
  expressionEnd e
  finish start (.exprStmt e)

def debuggerStatement (start : Nat) : Parse Node := do
  advance
  semicolon
  finish start .debuggerStmt

/-- A label of a jump starts here. -/
def isLabel : Parse Bool := do
  if ← canEndStatement then return false else isIdentifier

/-- `break` or `continue` with its label. -/
def jumpStatement (start : Nat) (form : Option Identifier → Form) : Parse Node := do
  advance
  let label ← when? isLabel identifier
  semicolon
  finish start (form label)

def returnStatement (start : Nat) : Parse Node := do
  advance
  let value ← unless? canEndStatement (expressionAllowIn g)
  semicolon
  finish start (.returnStmt value)

def throwStatement (start : Nat) : Parse Node := do
  advance
  let value ← expressionAllowIn g
  semicolon
  finish start (.throwStmt value)

def labeledStatement (start : Nat) : Parse Node := do
  let label ← identifier
  require .colon
  let body ← g .statement
  finish start (.labeledStmt label body)

/-- A condition in parentheses. -/
def condition : Parse Node := do
  require .openParen
  let e ← expressionAllowIn g
  require .closeParen
  return e

def ifStatement (start : Nat) : Parse Node := do
  advance
  let test ← condition g
  let thenBranch ← g .statement
  let elseBranch ← after? .elseKw (g .statement)
  finish start (.ifStmt test thenBranch elseBranch)

def doStatement (start : Nat) : Parse Node := do
  advance
  let body ← g .statement
  require .whileKw
  let test ← condition g
  discard .semicolon
  finish start (.doStmt body test)

def whileStatement (start : Nat) : Parse Node := do
  advance
  let test ← condition g
  let body ← g .statement
  finish start (.whileStmt test body)

def withStatement (start : Nat) : Parse Node := do
  advance
  let object ← condition g
  let body ← g .statement
  finish start (.withStmt object body)

/-- The head of a loop declares variables. -/
def declaresVariables : Parse Bool := do
  if ← isOneOf [.varKw, .constKw] then return true else isVariableKeyword

/-- Variables or an expression in the head of a loop. -/
def loopVariables : Parse Node := do
  let declares ← declaresVariables
  withContext (fun c => { c with noIn := true }) do
    if declares then variableList g else expression g

/-- The first part of the head of a loop: variables, an expression or nothing. -/
def forInitializer? : Parse (Option Node) := unless? (isToken .semicolon) (loopVariables g)

/-- The rest of a loop over the elements of something. -/
def forOfRest (start : Nat) (isAwait : Bool) (initializer : Node) : Parse Node := do
  require .ofKw
  let source ← allowIn (g .assignment)
  require .closeParen
  let body ← g .statement
  finish start (.forOfStmt isAwait initializer source body)

/-- The rest of a loop over the keys of something. -/
def forInRest (start : Nat) (initializer : Node) : Parse Node := do
  let source ← expressionAllowIn g
  require .closeParen
  let body ← g .statement
  finish start (.forInStmt initializer source body)

def checkInitializer (initializer : Option Node) : Parse Unit := do
  if let some list := initializer then checkVariableList list

/-- The rest of a loop with a condition and a step. -/
def forRest (start : Nat) (initializer : Option Node) : Parse Node := do
  checkInitializer initializer
  require .semicolon
  let test ← unless? (isOneOf [.semicolon, .closeParen]) (expressionAllowIn g)
  require .semicolon
  let incrementor ← unless? (isToken .closeParen) (expressionAllowIn g)
  require .closeParen
  let body ← g .statement
  finish start (.forStmt initializer test incrementor body)

def forStatement (start : Nat) : Parse Node := do
  advance
  let isAwait ← accept .awaitKw
  require .openParen
  match ← forInitializer? g with
  | none => forRest g start none
  | some initializer =>
      if isAwait || (← isToken .ofKw) then forOfRest g start isAwait initializer
      else if ← accept .inKw then forInRest g start initializer
      else forRest g start (some initializer)

/-- The variable of a `catch` clause, from the name on. -/
def catchVariable : Parse Node := do
  let start ← pos
  let name ← g (.binding .identifierExpected)
  let type ← typeClause? g
  let declaration ← finish start (.variableDeclaration name false type none)
  require .closeParen
  return declaration

def catchClause : Parse Node := do
  let start ← pos
  advance
  let binding? ← after? .openParen (catchVariable g)
  let body ← block g
  finish start (.catchClause binding? body)

/-- Report that a `try` statement has no clauses. -/
def checkClauses (handler finalizer : Option Node) : Parse Unit := do
  if handler.isNone && finalizer.isNone then errorHere .catchExpected []

def tryStatement (start : Nat) : Parse Node := do
  advance
  let body ← block g
  let handler ← when? (isToken .catchKw) (catchClause g)
  let finalizer ← after? .finallyKw (block g)
  checkClauses handler finalizer
  finish start (.tryStmt body handler finalizer)

/-- Tokens that end the statements of a clause. -/
def endsClause : TokenKind → Bool
  | .caseKw | .defaultKw | .closeBrace => true
  | _ => false

/-- The condition of a clause; the default has none. -/
def caseTest? : Parse (Option Node) := do
  if ← accept .caseKw then return some (← expressionAllowIn g)
  advance
  return none

def caseClause : Parse Node := do
  let start ← pos
  let test ← caseTest? g
  require .colon
  let startsOnLine := !(← afterLineBreak)
  let statements ← statementList g endsClause
  finish start (.caseClause test statements (statements.length = 1 && startsOnLine))

/-- A clause without a condition is the default. -/
def isDefaultClause (clause : Node) : Bool :=
  match clause.form with
  | .caseClause none _ _ => true
  | _ => false

/-- One clause of a switch, of which one can be the default. -/
def switchStep (rev : List Node) : Parse (ForInStep (List Node)) := do
  if ← atClose .closeBrace then return .done rev
  if !(← isOneOf [.caseKw, .defaultKw]) then
    errorHere .caseExpected []
    advance
    return .yield rev
  let clause ← caseClause g
  if isDefaultClause clause && rev.any isDefaultClause then
    errorAt .duplicateDefaultClause clause.span []
  return .yield (clause :: rev)

def switchClauses : Parse (List Node) := do
  if !(← expect .openBrace) then return []
  let rev ← loop ([] : List Node) (switchStep g)
  require .closeBrace
  return rev.reverse

def switchStatement (start : Nat) : Parse Node := do
  advance
  let subject ← condition g
  let clauses ← switchClauses g
  finish start (.switchStmt subject clauses)

def isLabeledStatement : Parse Bool := do
  if ← isIdentifier then nextIsToken .colon else return false

/-- A statement whose first token can also start an expression. -/
def otherStatement (start : Nat) : Parse Node := do
  if ← isDeclarationStart then declaration g
  else if ← isLabeledStatement then labeledStatement g start
  else expressionStatement g start

def statementInner : Parse Node := do
  let start ← pos
  match ← token with
  | .semicolon =>
      advance
      finish start .emptyStmt
  | .openBrace =>
      let body ← block g
      finish start (.blockStmt body)
  | .varKw => variableStatement g start {}
  | .letKw =>
      if ← isLetDeclaration then variableStatement g start {} else expressionStatement g start
  | .constKw =>
      if ← nextIsToken .enumKw then otherStatement g start else variableStatement g start {}
  | .usingKw | .awaitKw =>
      if ← isVariableKeyword then variableStatement g start {} else otherStatement g start
  | .functionKw | .classKw | .atSign => declaration g
  | .ifKw => ifStatement g start
  | .doKw => doStatement g start
  | .whileKw => whileStatement g start
  | .forKw => forStatement g start
  | .continueKw => jumpStatement start .continueStmt
  | .breakKw => jumpStatement start .breakStmt
  | .returnKw => returnStatement g start
  | .withKw => withStatement g start
  | .switchKw => switchStatement g start
  | .throwKw => throwStatement g start
  | .tryKw => tryStatement g start
  | .debuggerKw => debuggerStatement start
  | _ => otherStatement g start

def statement : Parse Node := nested missingStatement (statementInner g)

end Erasure.Parse
