import Erasure.Parse.Functions

/-!
Types. They are read in full, so that what follows them is found, although nothing of them is
printed.
-/

namespace Erasure.Parse

/-- A number with a sign is a type. -/
def isNegativeLiteral : Parse Bool := nextIs (isOneOf [.numericLiteral, .bigIntLiteral])

/-- The first token of a parameter in a function type. -/
def isTypeParameterStart : Parse Bool := do
  if ← isOneOf [.ellipsis, .openBrace, .openBracket, .thisKw] then return true
  if (← token).isModifier then return true
  isIdentifier

/-- A type starts here. After a parenthesis a list of parameters can follow, too. -/
def isTypeStartWithin : Nat → Parse Bool
  | 0 => return false
  | fuel + 1 => do
      match ← token with
      | .anyKw | .unknownKw | .stringKw | .numberKw | .bigintKw | .booleanKw | .readonlyKw
      | .symbolKw | .uniqueKw | .voidKw | .undefinedKw | .nullKw | .thisKw | .typeofKw | .neverKw
      | .objectKw | .keyofKw | .inferKw | .importKw | .assertsKw | .newKw | .openBrace
      | .openBracket | .lessThan | .bar | .ampersand | .stringLiteral | .numericLiteral
      | .bigIntLiteral | .trueKw | .falseKw | .ellipsis | .templateLiteral | .templateHead =>
          return true
      | .minus => isNegativeLiteral
      | .openParen => nextIs do
          if ← isToken .closeParen then return true
          if ← isTypeParameterStart then return true
          isTypeStartWithin fuel
      | _ => isIdentifier

def isTypeStart : Parse Bool := do
  isTypeStartWithin ((← get).scanner.source.utf8ByteSize + 1)

variable (g : Grammar)

/-- Pass over the start of a parameter; tells whether there was one. -/
def skipParameterStart : Parse Bool := do
  if (← token).isModifier then
    let _ ← modifiers .parameter
  if (← isIdentifier) || (← isToken .thisKw) then
    advance
    return true
  if ← isOneOf [.openBracket, .openBrace] then
    let errors ← errorCount
    let _ ← g (.binding .identifierExpected)
    return (← errorCount) = errors
  return false

/-- The parenthesis before the current token opens the parameters of a function type. -/
def isFunctionTypeAhead : Parse Bool := do
  if ← isOneOf [.closeParen, .ellipsis] then return true
  if ← skipParameterStart g then
    if ← isOneOf [.colon, .comma, .question, .equals] then return true
    if ← isToken .closeParen then return (← next) = .arrow
  return false

def isFunctionTypeStart : Parse Bool := do
  match ← token with
  | .lessThan | .newKw => return true
  | .openParen => nextIs (isFunctionTypeAhead g)
  | .abstractKw => nextIsToken .newKw
  | _ => return false

def functionType : Parse Node := do
  let start ← pos
  let isAbstract ← accept .abstractKw
  let isConstructor ← accept .newKw
  let typeParameters ← typeParameters? g
  let ps ← parameters g false false
  require .arrow
  let returnType ← allowConditionalType (typeOrPredicate g)
  let func : FunctionLike :=
    { isAsync := false, isGenerator := false, typeParameters, parameters := ps
      returnType := some returnType, body := none }
  finish start (if isConstructor then .constructorType isAbstract func else .functionType func)

/-- A type parameter list, parameters and a return type. -/
def signature : Parse FunctionLike := do
  let typeParameters ← typeParameters? g
  let ps ← parameters g false false
  let returnType ← returnType? g
  return { isAsync := false, isGenerator := false, typeParameters, parameters := ps, returnType
           body := none }

def typeMemberEnd : Parse Unit := do
  if !(← accept .comma) then semicolon

/-- The bracket before the current token opens an index signature, not a computed name. -/
def isIndexSignatureAhead : Parse Bool := do
  if ← isOneOf [.ellipsis, .closeBracket] then return true
  if (← token).isModifier then
    advance
    if ← isIdentifier then return true
  else if !(← isIdentifier) then return false
  else advance
  if ← isOneOf [.colon, .comma] then return true
  if !(← isToken .question) then return false
  advance
  isOneOf [.colon, .comma, .closeBracket]

def isIndexSignature : Parse Bool := do
  if ← isToken .openBracket then nextIs isIndexSignatureAhead else return false

def indexParameter : Parse Node := do
  let start ← pos
  let ms ← modifiers .parameter
  let isRest ← accept .ellipsis
  let name ← identifier
  let isOptional ← accept .question
  let type ← typeClause? g
  finish start (.parameter
    { decorators := [], modifiers := ms, isRest, name := name.toBinding, isOptional, type
      initializer := none })

def indexParameterStep : Parse (Option Node × Bool) := do
  if ← atClose .closeBracket then return (none, true)
  let p ← indexParameter g
  return (some p, !(← accept .comma))

/-- An index signature from its bracket on. -/
def indexSignature : Parse (List Node × Option Node) := do
  require .openBracket
  let ps ← collect (indexParameterStep g)
  require .closeBracket
  return (ps, ← typeClause? g)

/-- Pass over a word that can be a modifier. -/
def modifierWordStep (found : Bool) : Parse (ForInStep Bool) := do
  if (← token).isModifier then
    advance
    return .yield true
  return .done found

/-- A member of an object type starts here. -/
def isTypeMemberStart : Parse Bool := do
  if ← isOneOf [.openParen, .lessThan, .openBracket, .getKw, .setKw] then return true
  let hasModifier ← loop false modifierWordStep
  if ← isToken .openBracket then return true
  let hasName ← isLiteralKey
  if hasName then advance
  if !hasModifier && !hasName then return false
  if ← isOneOf [.openParen, .lessThan, .question, .colon, .comma] then return true
  canEndStatement

/-- `get` or `set` before a key is an accessor. -/
def isAccessor (isKeyAhead : Parse Bool) : Parse Bool := do
  if ← isOneOf [.getKw, .setKw] then nextIs isKeyAhead else return false

def isPublicKey : Parse Bool := do
  if ← isToken .openBracket then return true else isLiteralKey

def accessorSignature (start : Nat) (ms : Modifiers) : Parse Node := do
  let isGet ← isToken .getKw
  advance
  let name ← propertyKey g
  let sig ← signature g
  typeMemberEnd
  finish start (.typeElement ms
    (if isGet then .getterSignature name sig.returnType else .setterSignature name sig.parameters))

/-- A method or a property from behind its name on. -/
def signatureRest (name : Node) (isOptional : Bool) : Parse Form := do
  if ← isOneOf [.openParen, .lessThan] then return .methodSignature name isOptional (← signature g)
  else return .propertySignature name isOptional (← typeClause? g)

def namedSignature (start : Nat) (ms : Modifiers) : Parse Node := do
  let name ← propertyKey g
  let isOptional ← accept .question
  let element ← signatureRest g name isOptional
  typeMemberEnd
  finish start (.typeElement ms element)

def isConstructSignature : Parse Bool := do
  if ← isToken .newKw then nextIs (isOneOf [.openParen, .lessThan]) else return false

def typeMember : Parse Node := do
  let start ← pos
  if ← isOneOf [.openParen, .lessThan] then
    let sig ← signature g
    typeMemberEnd
    finish start (.typeElement {} (.callSignature sig))
  else if ← isConstructSignature then
    advance
    let sig ← signature g
    typeMemberEnd
    finish start (.typeElement {} (.constructSignature sig))
  else
    let ms ← modifiers .typeMember
    if ← isAccessor isPublicKey then accessorSignature g start ms
    else if ← isIndexSignature then
      let (ps, type) ← indexSignature g
      typeMemberEnd
      finish start (.typeElement ms (.indexSignature ps type))
    else namedSignature g start ms

/-- One member of an interface or object type. In a run of tokens that start no member only the
first one is reported. -/
def typeMemberStep : List Node × Bool → Parse (ForInStep (List Node × Bool))
  | (rev, inError) => do
      if ← atClose .closeBrace then return .done (rev, inError)
      if ← lookAhead isTypeMemberStart then
        let before ← pos
        let m ← typeMember g
        if (← pos) = before then advance
        return .yield (m :: rev, false)
      if !inError then errorHere .typeMemberExpected []
      advance
      return .yield (rev, true)

/-- The members of an interface or object type. -/
def typeMembers : Parse (List Node) := do
  if !(← expect .openBrace) then return []
  let (rev, _) ← loop (([] : List Node), false) (typeMemberStep g)
  require .closeBrace
  return rev.reverse

def isMappedTypeAhead : Parse Bool := do
  if ← isOneOf [.plus, .minus] then return (← next) = .readonlyKw
  discard .readonlyKw
  if !(← accept .openBracket) then return false
  if !(← isIdentifier) then return false
  return (← next) = .inKw

/-- A token or a sign before it, as in a mapped type. -/
def signedToken? (k : TokenKind) : Parse (Option TokenKind) := do
  if ← accept k then return some k
  if ← isOneOf [.plus, .minus] then
    let sign ← token
    advance
    require k
    return some sign
  return none

def mappedTypeEnd : Parse Unit := do
  if !(← accept .semicolon) then discard .comma

def mappedType : Parse Node := do
  let start ← pos
  require .openBrace
  let readonlyToken ← signedToken? .readonlyKw
  require .openBracket
  let keyStart ← pos
  let name ← identifier
  require .inKw
  let bound ← allowConditionalType (g .type)
  let key ← finish keyStart (.typeParameter {} name (some bound) none)
  let nameType ← typeAfter? g .asKw
  require .closeBracket
  let questionToken ← signedToken? .question
  let type ← typeClause? g
  mappedTypeEnd
  require .closeBrace
  finish start (.mappedType readonlyToken key nameType questionToken type)

def isNamedTupleMember : Parse Bool := lookAhead do
  discard .ellipsis
  if !(← isIdentifierOrKeyword) then return false
  match ← next with
  | .colon => return true
  | .question => return (← next) = .colon
  | _ => return false

def tupleElement : Parse Node := do
  let start ← pos
  if ← isNamedTupleMember then
    let isRest ← accept .ellipsis
    let name ← identifierName
    let isOptional ← accept .question
    require .colon
    let type ← allowConditionalType (g .type)
    finish start (.namedTupleMember name isRest isOptional type)
  else if ← accept .ellipsis then
    let type ← allowConditionalType (g .type)
    finish start (.restType type)
  else
    let type ← allowConditionalType (g .type)
    if ← accept .question then finish start (.optionalType type) else return type

/-- One element of a tuple with the comma after it. -/
def tupleStep : Parse (Option Node × Bool) := do
  if ← atClose .closeBracket then return (none, true)
  if !(← isTypeStart) then
    errorHere .typeExpected []
    if endsList (← token) then return (none, true)
    advance
    return (none, false)
  let start ← pos
  let element ← tupleElement g
  if ← accept .comma then return (some element, false)
  if ← isToken .closeBracket then return (some element, true)
  require .comma
  if (← pos) = start then advance
  return (some element, endsList (← token))

def tupleType : Parse Node := do
  let start ← pos
  require .openBracket
  let elements ← collect (tupleStep g)
  require .closeBracket
  finish start (.tupleType elements)

def importType (start : Nat) (isTypeof : Bool) : Parse Node := do
  require .importKw
  require .openParen
  let argument ← stringLiteral
  require .closeParen
  let qualifier ← after? .dot (entityName identifierName)
  let typeArguments ← typeArgumentsOnLine? g
  finish start (.importType isTypeof argument qualifier typeArguments)

/-- A substitution of a type and the text after it. -/
def typeTemplateStep : Parse (Option Node × Bool) := do
  let start ← pos
  let type ← allowConditionalType (g .type)
  let (literal, isTail) ← templateContinuation
  return (some (← finish start (.typeTemplateSpan type literal)), isTail)

def templateLiteralType : Parse Node := do
  let start ← pos
  let head ← tokenText
  advance
  let spans ← collect (typeTemplateStep g)
  finish start (.templateLiteralType head spans)

def typeQuery (start : Nat) : Parse Node := do
  advance
  if ← isToken .importKw then importType g start true
  else
    let name ← entityName identifierName
    let typeArguments ← typeArgumentsOnLine? g
    finish start (.typeQuery name typeArguments)

def typeReference : Parse Node := do
  let start ← pos
  let name ← entityName identifierName
  let typeArguments ← typeArgumentsOnLine? g
  finish start (.referenceType name typeArguments)

/-- The type `this`, or a predicate on it. -/
def thisType (start : Nat) : Parse Node := do
  advance
  if (← isToken .isKw) && !(← afterLineBreak) then
    let name : Identifier := { id := ← freshId, span := ⟨start, start + 4⟩, text := "this" }
    advance
    let type ← g .type
    finish start (.predicateType false name (some type))
  else finish start .thisType

def negativeLiteralType (start : Nat) : Parse Node := do
  advance
  let operand ← g .primary
  let literal ← finish start (.prefixUnary .minus operand)
  finish start (.literalType literal)

/-- A type named by a keyword. -/
def keywordType (start : Nat) : Parse Node := do
  let keyword ← token
  advance
  finish start (.keywordType keyword)

def namedType : Parse Node := do
  if (← isIdentifier) || (← token).isIdentifierLike then typeReference g
  else
    errorHere .typeExpected []
    missingType

def primaryType : Parse Node := do
  let start ← pos
  match ← token with
  | .anyKw | .unknownKw | .stringKw | .numberKw | .bigintKw | .booleanKw | .symbolKw
  | .undefinedKw | .neverKw | .objectKw =>
      if ← nextIsToken .dot then namedType g else keywordType start
  | .voidKw | .nullKw => keywordType start
  | .thisKw => thisType g start
  | .stringLiteral | .numericLiteral | .bigIntLiteral | .trueKw | .falseKw | .templateLiteral =>
      let literal ← g .primary
      finish start (.literalType literal)
  | .minus => if ← isNegativeLiteral then negativeLiteralType g start else namedType g
  | .templateHead => templateLiteralType g
  | .typeofKw => typeQuery g start
  | .importKw => importType g start false
  | .openBrace =>
      if ← nextIs isMappedTypeAhead then mappedType g
      else
        let members ← typeMembers g
        finish start (.typeLiteral members)
  | .openBracket => tupleType g
  | .openParen =>
      advance
      let type ← allowConditionalType (g .type)
      require .closeParen
      finish start (.parenthesizedType type)
  | _ => namedType g

/-- Add brackets to a type on the same line. -/
def postfixTypeStep (start : Nat) (type : Node) : Parse (ForInStep Node) := do
  if (← afterLineBreak) || !(← isToken .openBracket) then return .done type
  advance
  if ← accept .closeBracket then return .yield (← finish start (.arrayType type))
  let index ← allowConditionalType (g .type)
  require .closeBracket
  return .yield (← finish start (.indexedAccessType type index))

/-- Array types and indexed accesses. -/
def postfixType : Parse Node := do
  let start ← pos
  let first ← primaryType g
  loop first (postfixTypeStep g start)

/-- The bound after `infer U extends`, unless it starts a conditional type. -/
def inferBound? : Parse (Option Node) := attempt do
  if !(← accept .extendsKw) then return none
  let bound ← disallowConditionalType (g .type)
  if (← context).noConditionalType || !(← isToken .question) then return some bound
  return none

def typeOperator : Parse Node := do
  let start ← pos
  match ← token with
  | .keyofKw | .uniqueKw | .readonlyKw =>
      let operator ← token
      advance
      let type ← g .typeOperator
      finish start (.typeOperator operator type)
  | .inferKw =>
      advance
      let nameStart ← pos
      let name ← identifier
      let bound ← inferBound? g
      let variable_ ← finish nameStart (.typeParameter {} name bound none)
      finish start (.inferType variable_)
  | _ => postfixType g

/-- One operand of a union or intersection. A function type is read here although it should stand
in parentheses. -/
def typeOperand (operand : Parse Node) : Parse Node := do
  if ← isFunctionTypeStart g then functionType g else operand

/-- An operator and the operand after it, if there is one. -/
def operandStep (operator : TokenKind) (operand : Parse Node) : Parse (Option Node × Bool) := do
  if ← accept operator then return (some (← typeOperand g operand), false)
  return (none, true)

/-- Operands joined by an operator, which can stand before the first one, too. -/
def operatorType (operator : TokenKind) (form : List Node → Form) (operand : Parse Node) :
    Parse Node := do
  let start ← pos
  let hasLeading ← accept operator
  let first ← typeOperand g operand
  if !hasLeading && !(← isToken operator) then return first
  let rest ← collect (operandStep g operator operand)
  finish start (form (first :: rest))

def intersectionType : Parse Node :=
  operatorType g .ampersand .intersectionType (g .typeOperator)

def unionType : Parse Node := operatorType g .bar .unionType (intersectionType g)

def conditionalTypeRest (start : Nat) (checkType : Node) : Parse Node := do
  let extendsType ← disallowConditionalType (g .type)
  require .question
  let trueType ← allowConditionalType (g .type)
  require .colon
  let falseType ← allowConditionalType (g .type)
  finish start (.conditionalType checkType extendsType trueType falseType)

def typeInner : Parse Node := do
  if !(← isTypeStart) then
    errorHere .typeExpected []
    missingType
  else if ← isFunctionTypeStart g then functionType g
  else
    let start ← pos
    let checkType ← unionType g
    if (← context).noConditionalType || (← afterLineBreak) then return checkType
    if ← accept .extendsKw then conditionalTypeRest g start checkType else return checkType

def type : Parse Node := nested missingType (typeInner g)

end Erasure.Parse
