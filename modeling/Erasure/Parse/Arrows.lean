import Erasure.Parse.Primary

/-!
Arrow functions. Whether parentheses hold parameters or an expression is seen from a few tokens or,
if they do not tell, by reading the head of a function and going back if it was none.
-/

namespace Erasure

/-- What a few tokens tell about a construct. -/
inductive Evidence where
  | no | yes | unclear
  deriving DecidableEq

namespace Parse

/-- Parentheses with nothing inside belong to an arrow function if its rest follows. -/
def evidenceAfterEmpty : Parse Evidence := do
  match ← next with
  | .arrow | .colon | .openBrace => return .yes
  | _ => return .no

/-- After the first name in parentheses. -/
def evidenceAfterName : Parse Evidence := do
  match ← next with
  | .colon => return .yes
  | .question =>
      advance
      return if ← isOneOf [.colon, .comma, .equals, .closeParen] then .yes else .no
  | .comma | .equals | .closeParen => return .unclear
  | _ => return .no

/-- After an opening parenthesis, on the given token. -/
def evidenceAfterParenthesis (second : TokenKind) : Parse Evidence := do
  match second with
  | .closeParen => evidenceAfterEmpty
  | .openBracket | .openBrace => return .unclear
  | .ellipsis => return .yes
  | _ =>
      let isModified ←
        if second.isModifier && second ≠ .asyncKw then nextIs isIdentifier else pure false
      if isModified then return if (← next) = .asKw then .no else .yes
      if !(← isIdentifier) && second ≠ .thisKw then return .no
      evidenceAfterName

/-- Whether an arrow function with parentheses starts here. -/
def arrowEvidence : Parse Evidence := do
  if ← accept .asyncKw then
    if ← afterLineBreak then return .no
    if !(← isOneOf [.openParen, .lessThan]) then return .no
  let first ← token
  let second ← next
  if first = .openParen then evidenceAfterParenthesis second
  else if (← isIdentifier) || (← isToken .constKw) then return .unclear
  else return .no

variable (g : Grammar)

/-- The arrow and what follows it. -/
def arrowBody (isAsync : Bool) : Parse Node := do
  require .arrow
  if ← isToken .openBrace then functionBody g isAsync false
  else withContext (fun c => { c with inAsync := isAsync }) (g .assignment)

/-- An arrow function with parentheses. Unless it is certain, the head has to end like one. -/
def parenthesizedArrow? (isCertain : Bool) : Parse (Option Node) := do
  let start ← pos
  let isAsync ← accept .asyncKw
  let typeParameters ← typeParameters? g
  if !isCertain && !(← isToken .openParen) then return none
  let ps ← parameters g isAsync false
  let returnType ← returnType? g
  if !isCertain && !(← isOneOf [.arrow, .openBrace]) then return none
  let body ← arrowBody g isAsync
  let func : FunctionLike :=
    { isAsync, isGenerator := false, typeParameters, parameters := ps, returnType
      body := some body }
  return some (← finish start (.arrowFunction func false))

/-- An arrow function with parentheses, if it is read without error. -/
def speculativeArrow? : Parse (Option Node) := attempt do
  let errors ← errorCount
  let arrow ← parenthesizedArrow? g false
  return if (← errorCount) = errors then arrow else none

def arrowFunction? : Parse (Option Node) := do
  if !(← isOneOf [.openParen, .lessThan, .asyncKw]) then return none
  match ← lookAhead arrowEvidence with
  | .no => return none
  | .yes => parenthesizedArrow? g true
  | .unclear => speculativeArrow? g

/-- An arrow function from the arrow on, with a single parameter without parentheses. -/
def bareArrow (start : Nat) (name : Node) (isAsync : Bool) : Parse Node := do
  let p : Parameter :=
    { decorators := [], modifiers := {}, isRest := false, name, isOptional := false, type := none
      initializer := none }
  let p : Node := ⟨← freshId, name.span, .parameter p⟩
  let body ← arrowBody g isAsync
  let func : FunctionLike :=
    { isAsync, isGenerator := false, typeParameters := none, parameters := [p]
      returnType := none, body := some body }
  finish start (.arrowFunction func true)

/-- `async x =>` starts here. -/
def isAsyncBareArrow : Parse Bool := do
  if !(← isToken .asyncKw) then return false
  nextIs do
    if (← afterLineBreak) || !(← isIdentifier) then return false
    nextIsOnSameLine .arrow

def asyncBareArrow? : Parse (Option Node) := do
  if !(← isAsyncBareArrow) then return none
  let start ← pos
  advance
  let name ← withContext (fun c => { c with inAsync := true }) identifier
  return some (← bareArrow g start name.toBinding true)

end Parse
end Erasure
