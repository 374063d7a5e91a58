import Erasure.Parse.Bindings

/-!
Member accesses, calls and what else is added to an expression from the right, with the lists and
templates that occur in them, and decorators.
-/

namespace Erasure

/-- An expression with type arguments, taken apart. -/
def Node.splitInstantiation (n : Node) : Node × Option (List Node) :=
  match n.form with
  | .instantiation operand typeArguments => (operand, some typeArguments)
  | _ => (n, none)

namespace Parse

def isLeftHandSideStart : Parse Bool := do
  match ← token with
  | .thisKw | .superKw | .nullKw | .trueKw | .falseKw | .numericLiteral | .bigIntLiteral
  | .stringLiteral | .templateLiteral | .templateHead | .openParen | .openBracket | .openBrace
  | .functionKw | .classKw | .newKw | .slash | .slashEquals => return true
  | .importKw => nextIs (isOneOf [.openParen, .lessThan, .dot])
  | _ => isIdentifier

/-- The current token is a binary operator here. -/
def isBinaryOperator : Parse Bool := do
  let k ← token
  if k = .inKw && (← context).noIn then return false
  return (Precedence.ofBinary? k).isSome

/-- An expression starts here. A binary operator starts one that lacks its left operand. -/
def isExpressionStart : Parse Bool := do
  if ← isLeftHandSideStart then return true
  match ← token with
  | .plus | .minus | .tilde | .exclamation | .deleteKw | .typeofKw | .voidKw | .plusPlus
  | .minusMinus | .lessThan | .awaitKw | .yieldKw | .privateIdentifier | .atSign => return true
  | _ => if ← isBinaryOperator then return true else isIdentifier

/-- A list in the making, last element first. -/
structure OpenList where
  elementsRev : List Node := []
  breaksRev : List Bool := []
  trailingComma : Bool := false

/-- One element of a list with the comma after it. What starts no element is reported and passed
over, unless it ends a construct around the list. -/
def delimitedStep (close : TokenKind) (missing : Message) (isStart : Parse Bool)
    (element : Parse Node) (list : OpenList) : Parse (ForInStep OpenList) := do
  if ← atClose close then return .done list
  if ← isStart then
    let start ← pos
    let breaksRev := (← afterLineBreak) :: list.breaksRev
    let elementsRev := (← element) :: list.elementsRev
    if ← accept .comma then
      return .yield { elementsRev, breaksRev, trailingComma := true }
    let list : OpenList := { elementsRev, breaksRev, trailingComma := false }
    if ← isToken close then return .done list
    require .comma
    if (← pos) = start then advance
    return .yield list
  errorHere missing []
  if endsList (← token) then return .done list
  advance
  return .yield list

/-- Elements separated by commas up to a closing token. -/
def delimitedList (close : TokenKind) (missing : Message) (isStart : Parse Bool)
    (element : Parse Node) : Parse (List Node × ListLayout) := do
  let list ← loop ({} : OpenList) (delimitedStep close missing isStart element)
  let breakBeforeClose := (← isToken close) && (← afterLineBreak)
  return (list.elementsRev.reverse,
    { breaksBefore := list.breaksRev.reverse, breakBeforeClose
      trailingComma := list.trailingComma })

variable (g : Grammar)

def binaryNode (start : Nat) (left : Node) (operator : TokenKind) (right : Node)
    (breakBefore breakAfter : Bool) : Parse Node :=
  finish start (.binary left operator right breakBefore breakAfter)

/-- Add a comma operator and its right operand, if there is one. -/
def commaStep (start : Nat) : Node × Nat → Parse (ForInStep (Node × Nat))
  | (left, chain) => do
      if !(← isToken .comma) then return .done (left, chain)
      if ← chainTooLong chain then return .done (left, chain)
      let breakBefore ← afterLineBreak
      advance
      let breakAfter ← afterLineBreak
      let right ← g .assignment
      return .yield (← binaryNode start left .comma right breakBefore breakAfter, chain + 1)

/-- An expression with comma operators. -/
def expression : Parse Node :=
  withContext (fun c => { c with inDecorator := false }) do
    let start ← pos
    let first ← g .assignment
    let (result, _) ← loop (first, 1) (commaStep g start)
    return result

def expressionAllowIn : Parse Node := allowIn (expression g)

/-- The text after a substitution, and whether it ends the template. -/
def templateContinuation : Parse (String × Bool) := do
  if ← isToken .closeBrace then
    let isTail := (← rescanTemplate) = .templateTail
    let literal ← tokenText
    advance
    return (literal, isTail)
  require .closeBrace
  return ("\x7d\x60", true)

/-- A substitution and the text after it. -/
def templateStep : Parse (Option Node × Bool) := do
  let start ← pos
  let substitution ← expressionAllowIn g
  let (literal, isTail) ← templateContinuation
  return (some (← finish start (.templateSpan substitution literal)), isTail)

def template : Parse Node := do
  let start ← pos
  if ← isToken .templateLiteral then
    let raw ← tokenText
    let value ← tokenValue
    advance
    finish start (.templateLiteral raw value)
  else
    let head ← tokenText
    advance
    let spans ← collect (templateStep g)
    finish start (.template head spans)

def argument : Parse Node := do
  let start ← pos
  if ← accept .ellipsis then
    let operand ← g .assignment
    finish start (.spread operand)
  else if ← isToken .comma then finish start .omitted
  else g .assignment

def argumentList : Parse (List Node) := do
  require .openParen
  let isStart : Parse Bool := do
    if ← isToken .ellipsis then return true else isExpressionStart
  let (arguments, _) ← withContext (fun c => { c with noIn := false, inDecorator := false })
    (delimitedList .closeParen .argumentExpected isStart (argument g))
  require .closeParen
  return arguments

/-- What follows type arguments in an expression shows that they are some. -/
def canFollowTypeArguments : Parse Bool := do
  match ← token with
  | .openParen | .templateLiteral | .templateHead => return true
  | .lessThan | .greaterThan | .plus | .minus => return false
  | _ =>
      if ← afterLineBreak then return true
      if ← isBinaryOperator then return true
      return !(← isExpressionStart)

/-- A type argument in an expression. -/
def typeArgumentStep : Parse (Option Node × Bool) := do
  let type ← g .type
  return (some type, !(← accept .comma))

/-- Type arguments in an expression, if what looks like some is read without error and followed by
something that fits. -/
def expressionTypeArguments? : Parse (Option (List Node)) := do
  if !(← isToken .lessThan) then return none
  attempt do
    let errors ← errorCount
    advance
    let types ← collect (typeArgumentStep g)
    if (← errorCount) ≠ errors then return none
    if !(← accept .greaterThan) then return none
    return if ← canFollowTypeArguments then some types else none

/-- Grow a chain by one step, unless it is too long. -/
def chainStep (step : Node → Parse (ForInStep Node)) :
    Node × Nat → Parse (ForInStep (Node × Nat))
  | (target, chain) => do
      if ← chainTooLong chain then return .done (target, chain)
      match ← step target with
      | .done n => return .done (n, chain)
      | .yield n => return .yield (n, chain + 1)

/-- An optional chain, if there can be one, goes on with a member access or a template. -/
def isOptionalChain (isAllowed : Bool) : Parse Bool := do
  if !isAllowed then return false
  if !(← isToken .questionDot) then return false
  nextIs do
    if ← isIdentifierOrKeyword then return true
    if ← isOneOf [.privateIdentifier, .openBracket] then return true
    return (← token).isTemplateStart

def nextIsWordOnSameLine : Parse Bool := nextIs do
  return !(← afterLineBreak) && (← isIdentifierOrKeyword)

/-- The name after a dot. If the line ends after the dot and a declaration follows, the name is
missing. -/
def memberName : Parse MemberName := do
  if ← isToken .privateIdentifier then
    return { ident := ← takeIdentifier, isPrivate := true }
  if (← afterLineBreak) && (← isIdentifierOrKeyword) then
    if ← nextIsWordOnSameLine then
      errorHere .identifierExpected []
      return { ident := ← missingIdentifier, isPrivate := false }
  return { ident := ← identifierName, isPrivate := false }

def taggedTemplate (start : Nat) (tag : Node) (typeArguments : Option (List Node)) :
    Parse Node := do
  let quasi ← template g
  finish start (.taggedTemplate tag typeArguments quasi)

def elementAccess (start : Nat) (target : Node) (isOptional : Bool) : Parse Node := do
  let index ←
    if ← isToken .closeBracket then do
      errorHere .expressionExpected []
      missingExpression
    else expressionAllowIn g
  require .closeBracket
  finish start (.elementAccess target index isOptional)

/-- Add type arguments, if there are some. -/
def instantiationStep (start : Nat) (target : Node) : Parse (ForInStep Node) := do
  match ← expressionTypeArguments? g with
  | some types => return .yield (← finish start (.instantiation target types))
  | none => return .done target

/-- Add what only stands after an expression that is no optional chain. -/
def postfixChain (start : Nat) (target : Node) : Parse (ForInStep Node) := do
  if (← isToken .exclamation) && !(← afterLineBreak) then
    advance
    return .yield (← finish start (.nonNull target))
  instantiationStep g start target

/-- Pass over the sign before a member; tells whether the name of a property follows. -/
def propertySign (isOptional : Bool) : Parse Bool := do
  if isOptional then
    advance
    if ← isIdentifierOrKeyword then return true else isToken .privateIdentifier
  else accept .dot

/-- Add a template, assertion or list of type arguments. -/
def quasiStep (start : Nat) (isOptional : Bool) (target : Node) : Parse (ForInStep Node) := do
  if (← token).isTemplateStart then
    let (tag, typeArguments) := if isOptional then (target, none) else target.splitInstantiation
    return .yield (← taggedTemplate g start tag typeArguments)
  if isOptional then return .done target
  postfixChain g start target

/-- Add an element access, template, assertion or list of type arguments. -/
def elementStep (start : Nat) (isOptional : Bool) (target : Node) : Parse (ForInStep Node) := do
  if isOptional || !(← context).inDecorator then
    if ← accept .openBracket then return .yield (← elementAccess g start target isOptional)
  quasiStep g start isOptional target

/-- Add one member access, template, assertion or list of type arguments. -/
def memberStep (start : Nat) (allowOptional : Bool) (target : Node) : Parse (ForInStep Node) := do
  let breakBeforeDot ← afterLineBreak
  let isOptional ← isOptionalChain allowOptional
  if ← propertySign isOptional then
    let name ← memberName
    return .yield (← finish start (.propertyAccess target name isOptional breakBeforeDot))
  elementStep g start isOptional target

/-- Member accesses after an expression. -/
def memberChain (start : Nat) (allowOptional : Bool) (first : Node) : Parse Node := do
  let (result, _) ← loop (first, 1) (chainStep (memberStep g start allowOptional))
  return result

/-- Add a call or template after the sign of an optional chain, or a call without one. -/
def callRest (start : Nat) (isOptional : Bool) (callee : Node)
    (typeArguments : Option (List Node)) : Parse (ForInStep Node) := do
  if isOptional && (← token).isTemplateStart then
    return .yield (← taggedTemplate g start callee typeArguments)
  if typeArguments.isSome || (← isToken .openParen) then
    let (callee, typeArguments) :=
      if isOptional then (callee, typeArguments) else callee.splitInstantiation
    let arguments ← argumentList g
    return .yield (← finish start (.call callee typeArguments arguments isOptional))
  if isOptional then
    errorHere .identifierExpected []
    let name : MemberName := { ident := ← missingIdentifier, isPrivate := false }
    return .done (← finish start (.propertyAccess callee name true false))
  return .done callee

/-- Add one call with its member accesses. -/
def callStep (start : Nat) (callee : Node) : Parse (ForInStep Node) := do
  let callee ← memberChain g start true callee
  if ← accept .questionDot then
    callRest g start true callee (← expressionTypeArguments? g)
  else callRest g start false callee none

/-- Calls and member accesses after an expression. -/
def callChain (start : Nat) (first : Node) : Parse Node := do
  let (result, _) ← loop (first, 1) (chainStep (callStep g start))
  return result

/-- An operand with all its member accesses and calls. -/
def leftHandSide : Parse Node := do
  let start ← pos
  if ← accept .importKw then
    if ← accept .dot then
      let name ← identifierName
      callChain g start (← finish start (.metaProperty .importKw name.text))
    else callChain g start (← finish start .importExpr)
  else if ← accept .superKw then
    let operand ← finish start .superExpr
    callChain g start (← memberChain g start true operand)
  else
    let operand ← g .primary
    callChain g start (← memberChain g start true operand)

def decoratorStep : Parse (Option Node × Bool) := do
  let start ← pos
  if ← accept .atSign then
    let expression ← withContext (fun c => { c with inDecorator := true }) (leftHandSide g)
    return (some (← finish start (.decorator expression)), false)
  return (none, true)

def decorators : Parse (List Node) := collect (decoratorStep g)

end Parse
end Erasure
