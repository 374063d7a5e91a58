import Erasure.Parse.Chains

/-!
Statement lists and blocks, type parameters, parameters, and the rest of a function after its name.
-/

namespace Erasure.Parse

/-- A statement starts here. -/
def isStatementStart : Parse Bool := do
  match ← token with
  | .atSign | .semicolon | .openBrace | .varKw | .letKw | .constKw | .functionKw | .classKw
  | .enumKw | .ifKw | .doKw | .whileKw | .forKw | .continueKw | .breakKw | .returnKw | .withKw
  | .switchKw | .throwKw | .tryKw | .debuggerKw | .importKw | .exportKw => return true
  | _ => isExpressionStart

/-- A line feed or carriage return lies in a range of the source. -/
def hasLineBreakIn (span : Span) : Parse Bool := do
  let text := Text.slice (← get).scanner.source span.start span.stop
  return text.toList.any fun c => c = '\n' || c = '\r'

variable (g : Grammar)

/-- One statement. Every round passes over a token: what starts no statement is reported and passed
over. -/
def statementStep (isEnd : TokenKind → Bool) : Parse (Option Node × Bool) := do
  let k ← token
  if isEnd k || k = .endOfFile then return (none, true)
  if ← isStatementStart then
    let start ← pos
    let statement ← g .statement
    if (← pos) = start && !(← isToken .endOfFile) then advance
    return (some statement, false)
  errorHere .statementExpected []
  advance
  return (none, false)

/-- Statements up to a token that ends the list. -/
def statementList (isEnd : TokenKind → Bool) : Parse (List Node) := collect (statementStep g isEnd)

def block : Parse Node := do
  let start ← pos
  if !(← expect .openBrace) then
    return ⟨← freshId, Span.point start, .block [] false true⟩
  let isMultiLine ← afterLineBreak
  let statements ← statementList g (· = .closeBrace)
  require .closeBrace
  let isSingleLine := !(← hasLineBreakIn ((← get).spanFrom start))
  finish start (.block statements isMultiLine isSingleLine)

def typeParameter : Parse Node := do
  let start ← pos
  let ms ← modifiers .typeParameter
  let name ← identifier
  let bound ← typeAfter? g .extendsKw
  let fallback ← typeAfter? g .equals
  finish start (.typeParameter ms name bound fallback)

def angleStep (element : Parse Node) : Parse (Option Node × Bool) := do
  if ← atClose .greaterThan then return (none, true)
  let n ← element
  return (some n, !(← accept .comma))

/-- Elements between angle brackets, if there are some. -/
def angleList? (element : Parse Node) : Parse (Option (List Node)) := do
  if !(← accept .lessThan) then return none
  let elements ← collect (angleStep element)
  require .greaterThan
  return some elements

def typeParameters? : Parse (Option (List Node)) := angleList? (typeParameter g)

def typeArguments? : Parse (Option (List Node)) := angleList? (allowConditionalType (g .type))

/-- Type arguments on the same line. -/
def typeArgumentsOnLine? : Parse (Option (List Node)) := do
  if ← afterLineBreak then return none else typeArguments? g

def isParameterStart : Parse Bool := do
  if ← isOneOf [.ellipsis, .atSign, .thisKw] then return true
  if ← isBindingStart then return true
  return (← token).isModifier

/-- What the parameters so far say about the next one: an optional one was seen, and the position
of a rest parameter that has to be the last. -/
structure ParameterNotes where
  seenOptional : Bool := false
  restAt? : Option Nat := none

/-- Report what is wrong with a parameter, and note what it says about the next one. -/
def checkParameter (notes : ParameterNotes) (p : Parameter) (start : Nat) (question : Span) :
    Parse ParameterNotes := do
  if p.isRest then
    if p.initializer.isSome then errorAt .restParameterInitialized p.name.span []
    else if p.isOptional then errorAt .restParameterOptional question []
    return { notes with restAt? := some start }
  else if p.isOptional then
    if p.initializer.isSome then errorAt .optionalParameterInitialized p.name.span []
    return { notes with seenOptional := true }
  else
    if notes.seenOptional && p.initializer.isNone then
      errorAt .requiredAfterOptional p.name.span []
    return notes

def parameter (notes : ParameterNotes) : Parse (Node × ParameterNotes) := do
  let start ← pos
  let ds ← decorators g
  if ← isToken .thisKw then
    let name ← identifierName
    let type ← typeClause? g
    let p : Parameter :=
      { decorators := ds, modifiers := {}, isRest := false, name := name.toBinding
        isOptional := false, type, initializer := none }
    return (← finish start (.parameter p), notes)
  let ms ← modifiers .parameter
  let restStart ← pos
  let isRest ← accept .ellipsis
  let name ← g (.binding .identifierExpected)
  let question ← tokenSpan
  let isOptional ← accept .question
  let type ← typeClause? g
  let initializer ← initializer? g
  let p : Parameter :=
    { decorators := ds, modifiers := ms, isRest, name, isOptional, type, initializer }
  let notes ← checkParameter notes p restStart question
  return (← finish start (.parameter p), notes)

/-- Report a parameter after one that has to be the last. -/
def checkLast (notes : ParameterNotes) : Parse Unit := do
  if let some restAt := notes.restAt? then
    errorAt .restParameterNotLast ⟨restAt, restAt + 3⟩ []

/-- One round of a parameter list. -/
def parameterStep :
    List Node × ParameterNotes → Parse (ForInStep (List Node × ParameterNotes))
  | (rev, notes) => do
      if ← atClose .closeParen then return .done (rev, notes)
      if !(← isParameterStart) then
        errorHere .parameterExpected []
        if endsList (← token) then return .done (rev, notes)
        advance
        return .yield (rev, notes)
      checkLast notes
      let (p, notes) ← parameter g { notes with restAt? := none }
      if ← accept .comma then return .yield (p :: rev, notes)
      if ← isToken .closeParen then return .done (p :: rev, notes)
      require .comma
      return if ← isParameterStart then .yield (p :: rev, notes) else .done (p :: rev, notes)

def parameterList : Parse (List Node) := do
  let (rev, _) ← loop (([] : List Node), ({} : ParameterNotes)) (parameterStep g)
  return rev.reverse

def parameters (isAsync isGenerator : Bool) : Parse (List Node) := do
  if !(← expect .openParen) then return []
  let ps ← withContext (functionContext isAsync isGenerator) (parameterList g)
  require .closeParen
  return ps

/-- A predicate `asserts x is T` starts here. -/
def isAssertsPredicate : Parse Bool := do
  if !(← isToken .assertsKw) then return false
  nextIs do
    if ← afterLineBreak then return false
    if ← isIdentifier then return true
    isToken .thisKw

/-- A predicate `x is T` starts here. -/
def isTypePredicate : Parse Bool := do
  if !(← isIdentifier) && !(← isToken .thisKw) then return false
  nextIsOnSameLine .isKw

def typeOrPredicate : Parse Node := do
  let start ← pos
  if ← isAssertsPredicate then
    advance
    let name ← identifierName
    let type ← after? .isKw (g .type)
    finish start (.predicateType true name type)
  else if ← isTypePredicate then
    let name ← identifierName
    advance
    let type ← g .type
    finish start (.predicateType false name (some type))
  else g .type

def returnType? : Parse (Option Node) := after? .colon (allowConditionalType (typeOrPredicate g))

def functionBody (isAsync isGenerator : Bool) : Parse Node :=
  withContext (functionContext isAsync isGenerator) (block g)

/-- A declaration ends here without a body, which it can lack unless one is required. -/
def lacksBody (bodyRequired : Bool) : Parse Bool := do
  if bodyRequired then return false
  if ← isToken .openBrace then return false
  canEndStatement

/-- The body of a function, or the end of a declaration that lacks one. -/
def functionBody? (isAsync isGenerator bodyRequired : Bool) : Parse (Option Node) := do
  if ← lacksBody bodyRequired then
    semicolon
    return none
  if (← context).ambient && (← isToken .openBrace) then errorHere .ambientImplementation []
  return some (← functionBody g isAsync isGenerator)

/-- The rest of a function after its name. -/
def functionRest (start : Nat) (isAsync isGenerator bodyRequired : Bool) : Parse Node := do
  let typeParameters ← typeParameters? g
  let ps ← parameters g isAsync isGenerator
  let returnType ← returnType? g
  let body ← functionBody? g isAsync isGenerator bodyRequired
  finish start (.functionLike
    { isAsync, isGenerator, typeParameters, parameters := ps, returnType, body })

end Erasure.Parse
