import Erasure.Parse.Operators

/-!
Declarations of variables.
-/

namespace Erasure.Parse

/-- `let` declares variables if a binding follows it. -/
def isLetDeclaration : Parse Bool := nextIs isBindingStart

def isUsingDeclaration : Parse Bool := nextIs do
  return !(← afterLineBreak) && (← isIdentifier) && !(← isToken .ofKw)

def isAwaitUsingDeclaration : Parse Bool := nextIs do
  if !(← isToken .usingKw) || (← afterLineBreak) then return false
  nextIs do return !(← afterLineBreak) && (← isIdentifier)

/-- The current token opens a declaration of variables if it is one of the words that do not
always. -/
def isVariableKeyword : Parse Bool := do
  match ← token with
  | .letKw => isLetDeclaration
  | .usingKw => isUsingDeclaration
  | .awaitKw => isAwaitUsingDeclaration
  | _ => return false

variable (g : Grammar)

/-- Variables without implementation have no initializer. -/
def checkAmbientInitializer (initializer : Option Node) : Parse Unit := do
  if let some value := initializer then
    if (← context).ambient then errorAt .ambientInitializer value.span []

def variableDeclaration : Parse Node := do
  let start ← pos
  let name ← g (.binding .variableExpected)
  let isDefinite ← definiteSign name.bindingName?.isNone
  let type ← typeClause? g
  let initializer ← initializer? g
  checkAmbientInitializer initializer
  finish start (.variableDeclaration name isDefinite type initializer)

/-- The keyword of a declaration, which can be two words. -/
def variableKind : Parse VariableKind := do
  let kind ←
    match ← token with
    | .letKw => pure VariableKind.let_
    | .constKw => pure VariableKind.const
    | .usingKw => pure VariableKind.using_
    | .awaitKw =>
        advance
        pure VariableKind.awaitUsing
    | _ => pure VariableKind.var
  advance
  return kind

/-- One variable and the comma after it. -/
def variableStep (rev : List Node) : Parse (ForInStep (List Node)) := do
  if !(← isBindingStart) then
    errorHere (if rev.isEmpty then .emptyDeclarationList else .variableExpected) []
    return .done rev
  let rev := (← variableDeclaration g) :: rev
  return if ← accept .comma then .yield rev else .done rev

def variableList : Parse Node := do
  let start ← pos
  let kind ← variableKind
  let rev ← loop ([] : List Node) (variableStep g)
  finish start (.variableList kind rev.reverse)

/-- Report a declaration that needs an initializer and has none. -/
def checkInitialized (kind : VariableKind) (declaration : Node) : Parse Unit := do
  match declaration.form with
  | .variableDeclaration name _ _ none =>
      if name.span.length > 0 then
        errorAt .uninitializedDeclaration declaration.span [kind.keyword]
  | _ => pure ()

/-- Constants need initializers, unless they are ambient or stand in the head of a loop over the
elements of something. -/
def checkVariableList (list : Node) : Parse Unit := do
  match list.form with
  | .variableList kind declarations =>
      if kind.isConstant && !(← context).ambient then
        declarations.forM (checkInitialized kind)
  | _ => pure ()

def variableStatement (start : Nat) (ms : Modifiers) : Parse Node := do
  let list ← variableList g
  checkVariableList list
  semicolon
  finish start (.varStmt ms list)

end Erasure.Parse
