import Erasure.Parse.Classes

/-!
Primary expressions: literals, names, and everything else that needs no operator.
-/

namespace Erasure.Parse

variable (g : Grammar)

def arrayLiteral (start : Nat) : Parse Node := do
  require .openBracket
  let isStart : Parse Bool := do
    if ← isOneOf [.comma, .ellipsis] then return true else isExpressionStart
  let (elements, layout) ←
    allowIn (delimitedList .closeBracket .expressionExpected isStart (argument g))
  require .closeBracket
  finish start (.arrayLiteral elements layout)

/-- A method, a property without a value, or a property with one. -/
def namedProperty (start : Nat) (isAsync : Bool) : Parse Form := do
  let isGenerator ← accept .asterisk
  let isName ← isIdentifier
  let name ← propertyKey g
  discard .question
  if isGenerator || (← isOneOf [.openParen, .lessThan]) then
    return .methodProperty name (← functionRest g start isAsync isGenerator true)
  if isName && !(← isToken .colon) then
    match name.form with
    | .identifierKey text =>
        let initializer ← initializer? g
        return .shorthandProperty { id := name.id, span := name.span, text } initializer
    | _ => return .missingProperty
  require .colon
  return .propertyAssignment name (← g .assignment)

def objectProperty : Parse Node := do
  let start ← pos
  if ← accept .ellipsis then
    let operand ← g .assignment
    finish start (.spreadProperty operand)
  else
    let ms ← modifiers .classMember
    let property ←
      if ← isAccessor isPublicKey then accessor g start true .getterProperty .setterProperty
      else namedProperty g start (ms.has .isAsync)
    finish start property

def objectLiteral (start : Nat) : Parse Node := do
  require .openBrace
  let isStart : Parse Bool := do
    if ← isOneOf [.ellipsis, .asterisk] then return true else isKey
  let (properties, layout) ←
    allowIn (delimitedList .closeBrace .propertyExpected isStart (objectProperty g))
  require .closeBrace
  finish start (.objectLiteral properties layout)

/-- The modifier `async`, if it stands here. -/
def asyncModifier : Parse Modifiers := do
  let span ← tokenSpan
  if ← accept .asyncKw then
    return { flags := [.isAsync], list := [{ kind := .asyncKw, span }] }
  return {}

def functionExpression (start : Nat) : Parse Node := do
  let ms ← asyncModifier
  let isAsync := ms.has .isAsync
  require .functionKw
  let isGenerator ← accept .asterisk
  let name ← withContext (functionContext isAsync isGenerator) (when? isIdentifier identifier)
  let func ← functionRest g start isAsync isGenerator true
  finish start (.functionExpr ms name func)

def classExpression (start : Nat) : Parse Node := do
  let ds ← decorators g
  let cls ← classLike g start ds {}
  finish start (.classExpr cls)

def newExpression (start : Nat) : Parse Node := do
  require .newKw
  if ← accept .dot then
    let name ← identifierName
    finish start (.metaProperty .newKw name.text)
  else
    let calleeStart ← pos
    let operand ← g .primary
    let (callee, typeArguments) := (← memberChain g calleeStart false operand).splitInstantiation
    let arguments ← when? (isToken .openParen) (argumentList g)
    finish start (.newExpr callee typeArguments arguments)

/-- A node for the current token. -/
def tokenNode (start : Nat) (form : Form) : Parse Node := do
  advance
  finish start form

def parenthesized (start : Nat) : Parse Node := do
  advance
  let inner ← expressionAllowIn g
  require .closeParen
  finish start (.parenthesized inner)

def regularExpression (start : Nat) : Parse Node := do
  rescanSlash
  tokenNode start (.regExpLiteral (← tokenText))

/-- A name as an expression. -/
def nameExpression (start : Nat) : Parse Node := do
  if ← isIdentifier then
    let name ← identifier
    finish start (.identifier name.text)
  else
    errorHere .expressionExpected []
    missingExpression

def primary : Parse Node := do
  let start ← pos
  match ← token with
  | .numericLiteral => tokenNode start (.numericLiteral (← tokenText))
  | .bigIntLiteral => tokenNode start (.bigIntLiteral (← tokenText))
  | .stringLiteral => tokenNode start (.stringLiteral (← tokenText) (← tokenValue))
  | .templateLiteral | .templateHead => template g
  | .thisKw => tokenNode start .thisExpr
  | .nullKw => tokenNode start .nullLiteral
  | .trueKw => tokenNode start (.booleanLiteral true)
  | .falseKw => tokenNode start (.booleanLiteral false)
  | .superKw => tokenNode start .superExpr
  | .openParen => parenthesized g start
  | .openBracket => arrayLiteral g start
  | .openBrace => objectLiteral g start
  | .asyncKw =>
      if ← nextIsOnSameLine .functionKw then functionExpression g start else nameExpression start
  | .functionKw => functionExpression g start
  | .classKw | .atSign => classExpression g start
  | .newKw => newExpression g start
  | .slash | .slashEquals => regularExpression start
  | .privateIdentifier =>
      let name ← takeIdentifier
      finish start (.privateName name.text)
  | _ => nameExpression start

end Erasure.Parse
