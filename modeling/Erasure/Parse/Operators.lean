import Erasure.Parse.Arrows

/-!
Operators: assignments and conditional expressions, binary operators by precedence, and unary
operators.
-/

namespace Erasure.Parse

variable (g : Grammar)

/-- Assignments and the operators after a name apply to calls, members and primary expressions. -/
def isTarget (n : Node) : Bool := Precedence.leftHandSide ≤ n.precedence

/-- `await` is an operator here. Outside of a function it is one if an operand follows. -/
def isAwaitOperator : Parse Bool := do
  if (← context).inAsync then return true
  nextIs do
    if ← afterLineBreak then return false
    if ← isIdentifierOrKeyword then return true
    let k ← token
    return k.isLiteral || k.isTemplateStart

/-- Whether a token on a new line goes on with a piece of JSX. -/
def goesOnWithMarkup : TokenKind → Bool
  | .lessThan | .greaterThan | .slash => true
  | _ => false

/-- The depth of brackets after the current token, or none at the end of a piece of JSX. -/
def markupDepth? (depth : Nat) : Parse (Option Nat) := do
  match ← token with
  | .endOfFile => return none
  | .openBrace | .openParen | .openBracket => return some (depth + 1)
  | .closeBrace | .closeParen | .closeBracket => return if depth = 0 then none else some (depth - 1)
  | k =>
      if depth ≠ 0 then return some depth
      if k = .semicolon then return none
      if (← afterLineBreak) && !goesOnWithMarkup k then return none
      return some depth

def markupStep (depth : Nat) : Parse (ForInStep Nat) := do
  match ← markupDepth? depth with
  | none => return .done depth
  | some depth =>
      advance
      return .yield depth

/-- Report a piece of JSX and pass over it. -/
def skipMarkup (start : Nat) : Parse Node := do
  errorHere .jsxUnsupported []
  advance
  let _ ← loop 0 markupStep
  finish start .missingExpr

/-- An operator before its operand. -/
def prefixOperation (start : Nat) (form : Node → Form) : Parse Node := do
  advance
  let operand ← g .unary
  finish start (form operand)

def typeAssertion (start : Nat) : Parse Node := do
  advance
  let type ← g .type
  require .greaterThan
  let operand ← g .unary
  finish start (.typeAssertion type operand)

/-- An operand, with the operator after it if there is one on the same line. -/
def postfixOperation (start : Nat) : Parse Node := do
  let operand ← leftHandSide g
  let operator ← token
  let applies := operator = .plusPlus || operator = .minusMinus
  if applies && !(← afterLineBreak) && isTarget operand then
    advance
    finish start (.postfixUnary operator operand)
  else return operand

def unaryInner : Parse Node := do
  let start ← pos
  let operator ← token
  match operator with
  | .plus | .minus | .tilde | .exclamation | .plusPlus | .minusMinus =>
      prefixOperation g start (.prefixUnary operator)
  | .deleteKw => prefixOperation g start .deleteExpr
  | .typeofKw => prefixOperation g start .typeofExpr
  | .voidKw => prefixOperation g start .voidExpr
  | .awaitKw =>
      if ← isAwaitOperator then prefixOperation g start .awaitExpr else postfixOperation g start
  | .lessThan => if (← get).isTsx then skipMarkup start else typeAssertion g start
  | _ => postfixOperation g start

def unary : Parse Node := nested missingExpression (unaryInner g)

/-- The spelling of an operator that cannot stand before the base of a power. -/
def unaryOperatorText? : Form → Option String
  | .prefixUnary operator _ =>
      if operator = .plusPlus || operator = .minusMinus then none else some operator.text
  | .deleteExpr _ => some "delete"
  | .typeofExpr _ => some "typeof"
  | .voidExpr _ => some "void"
  | .awaitExpr _ => some "await"
  | _ => none

/-- The base of a power needs parentheses if an operator or assertion stands before it. -/
def checkPowerBase (base : Node) : Parse Unit := do
  if !(← isToken .power) then return
  match base.form with
  | .typeAssertion _ _ => errorAt .assertionBeforePower base.span []
  | form =>
      if let some operator := unaryOperatorText? form then
        errorAt .unaryBeforePower base.span [operator]

/-- A logical operation beside a coalescing operator needs parentheses. -/
def checkCoalesceOperand (operand : Node) : Parse Unit := do
  match operand.form with
  | .binary _ operator _ _ _ =>
      if operator.isLogicalOperator then
        errorAt .mixedOperators operand.span [operator.text, TokenKind.questionQuestion.text]
  | _ => pure ()

/-- Whether an operator of a level goes on with an operation. Powers associate to the right. -/
def bindsTighter (operator : TokenKind) (level above : Precedence) : Bool :=
  if operator = .power then above ≤ level else above < level

/-- The level of the current token, if it is an operator that goes on with an operation. -/
def operatorLevel? (above : Precedence) : Parse (Option Precedence) := do
  let operator ← rescanGreater
  if operator = .inKw && (← context).noIn then return none
  return (Precedence.ofBinary? operator).filter fun level => bindsTighter operator level above

/-- Add one operator and its right operand. -/
def binaryStep (start : Nat) (left : Node) (operator : TokenKind) (level : Precedence) :
    Parse Node := do
  let breakBefore ← afterLineBreak
  advance
  let breakAfter ← afterLineBreak
  let right ← g (.binary level)
  if operator = .questionQuestion then
    checkCoalesceOperand left
    checkCoalesceOperand right
  binaryNode start left operator right breakBefore breakAfter

/-- Add one assertion about the type. -/
def assertionStep (start : Nat) (operand : Node) (operator : TokenKind) : Parse Node := do
  advance
  let type ← g .type
  finish start
    (if operator = .asKw then .asExpr operand type else .satisfiesExpr operand type)

/-- Add one operation that binds tighter than a level. -/
def operationStep (start : Nat) (above : Precedence) :
    Node × Nat → Parse (ForInStep (Node × Nat))
  | (left, chain) => do
      match ← operatorLevel? above with
      | none => return .done (left, chain)
      | some level =>
          if ← chainTooLong chain then return .done (left, chain)
          let operator ← token
          if operator = .asKw || operator = .satisfiesKw then
            if ← afterLineBreak then return .done (left, chain)
            return .yield (← assertionStep g start left operator, chain + 1)
          return .yield (← binaryStep g start left operator level, chain + 1)

/-- Operations that bind tighter than a level, from the operator on. -/
def binaryRest (start : Nat) (above : Precedence) (first : Node) : Parse Node := do
  let (result, _) ← loop (first, 1) (operationStep g start above)
  return result

/-- Operations that bind tighter than a level. -/
def binary (above : Precedence) : Parse Node := do
  let start ← pos
  let first ← g .unary
  checkPowerBase first
  binaryRest g start above first

def conditionalRest (start : Nat) (condition : Node) : Parse Node := do
  let beforeQuestion ← afterLineBreak
  if !(← accept .question) then return condition
  let afterQuestion ← afterLineBreak
  let whenTrue ← allowIn (g .assignment)
  let beforeColon ← afterLineBreak
  require .colon
  let afterColon ← afterLineBreak
  let whenFalse ← g .assignment
  finish start (.conditional condition whenTrue whenFalse
    { beforeQuestion, afterQuestion, beforeColon, afterColon })

/-- An operand follows `yield` on the same line. -/
def hasYieldOperand : Parse Bool := do
  if ← afterLineBreak then return false
  else if ← isToken .asterisk then return true
  else isExpressionStart

def yieldExpression (start : Nat) : Parse Node := do
  advance
  if ← hasYieldOperand then
    let isDelegate ← accept .asterisk
    let operand ← g .assignment
    finish start (.yieldExpr isDelegate (some operand))
  else finish start (.yieldExpr false none)

/-- An assignment to a target, from the operator on. -/
def assignmentRest (start : Nat) (target : Node) : Parse Node := do
  let operator ← token
  let breakBefore ← afterLineBreak
  advance
  let breakAfter ← afterLineBreak
  let value ← g .assignment
  binaryNode start target operator value breakBefore breakAfter

/-- The current token assigns to what was read before it. -/
def isAssignmentTo (target : Node) : Parse Bool := do
  if isTarget target then return (← rescanGreater).isAssignmentOperator else return false

/-- What follows a first operation: an arrow, an assignment, a conditional expression or nothing. -/
def operationRest (start : Nat) (first : Node) : Parse Node := do
  if ← isToken .arrow then
    if let some text := first.identifier? then
      return ← bareArrow g start ⟨first.id, first.span, .bindingIdentifier text⟩ false
  if ← isAssignmentTo first then assignmentRest g start first else conditionalRest g start first

def assignmentInner : Parse Node := do
  let start ← pos
  if (← isToken .yieldKw) && (← context).inGenerator then yieldExpression g start
  else if let some arrow ← arrowFunction? g then return arrow
  else if let some arrow ← asyncBareArrow? g then return arrow
  else
    let first ← g (.binary .comma)
    operationRest g start first

def assignment : Parse Node := nested missingExpression (assignmentInner g)

end Erasure.Parse
