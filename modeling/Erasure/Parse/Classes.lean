import Erasure.Parse.Types

/-!
Classes: the heritage clauses and the members.
-/

namespace Erasure.Parse

variable (g : Grammar)

/-- One entry of an `extends` or `implements` clause. -/
def heritage (isType : Bool) : Parse Node := do
  let start ← pos
  let (expression, inner) := (← leftHandSide g).splitInstantiation
  let typeArguments ← if inner.isSome then pure inner else typeArguments? g
  finish start (.heritage isType expression typeArguments)

def heritageStep (isType : Bool) : Parse (Option Node × Bool) := do
  let entry ← heritage g isType
  return (some entry, !(← accept .comma))

def heritageList (isType : Bool) : Parse (List Node) := collect (heritageStep g isType)

/-- One clause. Only the first base class counts. -/
def heritageClauseStep :
    Option Node × List Node → Parse (ForInStep (Option Node × List Node))
  | (base, interfaces) => do
      if ← accept .extendsKw then
        let bases ← heritageList g false
        return .yield (base.or bases.head?, interfaces)
      if ← accept .implementsKw then
        return .yield (base, interfaces ++ (← heritageList g true))
      return .done (base, interfaces)

/-- The base class and the interfaces. -/
def heritageClauses : Parse (Option Node × List Node) :=
  loop (none, []) (heritageClauseStep g)

/-- A `static` block starts here. -/
def isStaticBlock : Parse Bool := do
  if ← isToken .staticKw then nextIsToken .openBrace else return false

def isConstructor : Parse Bool := do
  let isNamed ←
    if ← isToken .stringLiteral then pure ((← tokenValue) == "constructor")
    else isToken .constructorKw
  if isNamed then nextIs (isOneOf [.openParen, .lessThan]) else return false

/-- A getter or setter from its keyword on. -/
def accessor (start : Nat) (bodyRequired : Bool) (getter setter : Node → Node → Form) :
    Parse Form := do
  let isGet ← isToken .getKw
  advance
  let name ← propertyKey g
  let func ← functionRest g start false false bodyRequired
  return if isGet then getter name func else setter name func

/-- The initializer of a property runs outside of the function around the class. -/
def propertyInitializer? : Parse (Option Node) :=
  withContext (functionContext false false) (initializer? g)

/-- A method or a property. -/
def namedMember (start : Nat) (ms : Modifiers) : Parse Form := do
  let isGenerator ← accept .asterisk
  let name ← propertyKey g
  let isOptional ← accept .question
  if isGenerator || (← isOneOf [.openParen, .lessThan]) then
    let func ← functionRest g start (ms.has .isAsync) isGenerator false
    return .methodMember name isOptional func
  let isDefinite ← definiteSign isOptional
  let type ← typeClause? g
  let initializer ← propertyInitializer? g
  semicolon
  return .propertyMember name isOptional isDefinite type initializer

/-- What a member is, after its decorators and modifiers. -/
def member? (start : Nat) (ms : Modifiers) : Parse (Option Form) := do
  if ← isStaticBlock then
    advance
    let body ← withContext (fun c => { c with inAsync := true, inGenerator := false }) (block g)
    return some (.staticBlock body)
  let isKeyAhead : Parse Bool := do
    if ← isToken .privateIdentifier then return true else isPublicKey
  if ← isAccessor isKeyAhead then
    return some (← accessor g start false .getterMember .setterMember)
  if ← isConstructor then
    advance
    return some (.constructorMember (← functionRest g start false false false))
  if ← isIndexSignature then
    let (ps, type) ← indexSignature g
    typeMemberEnd
    return some (.indexMember ps type)
  if (← isToken .asterisk) || (← isKey) then return some (← namedMember g start ms)
  return none

def classMember? : Parse (Option Node) := do
  let start ← pos
  if ← accept .semicolon then return some (← finish start (.classMember [] {} .semicolonMember))
  let ds ← decorators g
  let ms ← modifiers .classMember
  match ← member? g start ms with
  | some m => return some (← finish start (.classMember ds ms m))
  | none =>
      let isBare := ds.isEmpty && ms.list.isEmpty
      errorHere (if isBare then .classMemberExpected else .declarationExpected) []
      return none

/-- One member of a class. What is no member is reported and passed over, unless it ends a
construct around the class. -/
def classMemberStep : Parse (Option Node × Bool) := do
  if ← atClose .closeBrace then return (none, true)
  let start ← pos
  let m ← classMember? g
  if m.isNone && endsList (← token) then return (none, true)
  if (← pos) = start then advance
  return (m, false)

/-- The members of a class. -/
def classMembers : Parse (List Node) := do
  if !(← expect .openBrace) then return []
  let members ← collect (classMemberStep g)
  require .closeBrace
  return members

/-- The word `implements` opens a clause here and is no name. -/
def isImplementsClause : Parse Bool := do
  if ← isToken .implementsKw then nextIs isIdentifierOrKeyword else return false

/-- The name of a class starts here. -/
def isClassName : Parse Bool := do
  if ← isIdentifier then return !(← isImplementsClause) else return false

/-- A class from its keyword on. -/
def classLike (start : Nat) (ds : List Node) (ms : Modifiers) : Parse Node := do
  require .classKw
  let name ← when? isClassName identifier
  let typeParameters ← typeParameters? g
  let (base, interfaces) ← heritageClauses g
  let members ← classMembers g
  finish start (.classLike
    { decorators := ds, modifiers := ms, name, typeParameters, base, interfaces, members })

end Erasure.Parse
