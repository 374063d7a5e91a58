import Erasure.Parse.Modifiers

/-!
Property keys, binding patterns, type annotations and initializers.
-/

namespace Erasure

/-- A name as a property key. -/
def Identifier.toKey (name : Identifier) : Node := ⟨name.id, name.span, .identifierKey name.text⟩

/-- A name as a binding. -/
def Identifier.toBinding (name : Identifier) : Node :=
  ⟨name.id, name.span, .bindingIdentifier name.text⟩

namespace Parse

variable (g : Grammar)

def propertyKey : Parse Node := do
  let start ← pos
  match ← token with
  | .stringLiteral =>
      let literal ← stringLiteral
      return ⟨literal.id, literal.span, .stringKey literal.raw literal.value⟩
  | .numericLiteral =>
      let raw ← tokenText
      advance
      finish start (.numericKey raw)
  | .bigIntLiteral =>
      let raw ← tokenText
      advance
      finish start (.bigIntKey raw)
  | .privateIdentifier =>
      let name ← takeIdentifier
      return ⟨name.id, name.span, .privateKey name.text⟩
  | .openBracket =>
      advance
      let expression ← allowIn (g .assignment)
      require .closeBracket
      finish start (.computedKey expression)
  | _ => return (← identifierName).toKey

/-- A type after a token of a kind, if it is there. -/
def typeAfter? (k : TokenKind) : Parse (Option Node) := after? k (allowConditionalType (g .type))

/-- A type after a colon, if there is one. -/
def typeClause? : Parse (Option Node) := typeAfter? g .colon

/-- A value after an equals sign, if there is one. -/
def initializer? : Parse (Option Node) := after? .equals (g .assignment)

/-- The sign that a value is set elsewhere, unless it is excluded. -/
def definiteSign (isExcluded : Bool) : Parse Bool := do
  if isExcluded || (← afterLineBreak) then return false else accept .exclamation

def isBindingStart : Parse Bool := do
  if ← isIdentifier then return true
  isOneOf [.openBracket, .openBrace]

/-- The name of a property in a pattern without a colon: only a plain name can bind itself. -/
def shorthandBinding (isShorthand : Bool) (key : Node) : Parse Node := do
  match key.form with
  | .identifierKey text =>
      if isShorthand then return ⟨key.id, key.span, .bindingIdentifier text⟩
  | _ => pure ()
  errorHere .tokenExpected [":"]
  return ⟨← freshId, key.span, .bindingIdentifier ""⟩

/-- The key and the target of a property in a pattern, if it has a key at all. -/
def propertyBinding? : Parse (Option (Option Node × Node)) := do
  if !(← isKey) then
    errorHere .propertyExpected []
    return none
  let isShorthand ← isIdentifier
  let key ← propertyKey g
  if ← accept .colon then return some (some key, ← g (.binding .identifierExpected))
  return some (none, ← shorthandBinding isShorthand key)

/-- The rest of an element of an object pattern, unless it has no target. -/
def targetRest (start : Nat) (isRest : Bool) (target : Option (Option Node × Node)) :
    Parse (Option Node × Bool) := do
  match target with
  | none => return (none, true)
  | some (key, name) =>
      let initializer ← initializer? g
      let element ← finish start (.bindingElement isRest key name initializer)
      return (some element, !(← accept .comma))

/-- One element of an object pattern and the comma after it. -/
def objectPatternElement : Parse (Option Node × Bool) := do
  if ← atClose .closeBrace then return (none, true)
  let start ← pos
  let isRest ← accept .ellipsis
  let target ← if isRest then pure (some (none, ← g (.binding .identifierExpected)))
    else propertyBinding? g
  targetRest g start isRest target

def objectPattern : Parse Node := do
  let start ← pos
  require .openBrace
  let elements ← collect (objectPatternElement g)
  require .closeBrace
  finish start (.objectPattern elements)

/-- One element of an array pattern. -/
def arrayPatternElement : Parse Node := do
  let start ← pos
  let isRest ← accept .ellipsis
  let name ← g (.binding .identifierExpected)
  let initializer ← initializer? g
  finish start (.bindingElement isRest none name initializer)

/-- One element or hole of an array pattern and the comma after it. -/
def arrayPatternStep :
    List (Option Node) × Bool → Parse (ForInStep (List (Option Node) × Bool))
  | (rev, trailing) => do
      if ← atClose .closeBracket then return .done (rev, trailing)
      if ← accept .comma then return .yield (none :: rev, true)
      if !(← isToken .ellipsis) && !(← isBindingStart) then
        errorHere .identifierExpected []
        return .done (rev, false)
      let element ← arrayPatternElement g
      if ← accept .comma then return .yield (some element :: rev, true)
      return .done (some element :: rev, false)

/-- The elements of an array pattern, last one first, and whether a comma stands after them. -/
def arrayPatternElements : Parse (List (Option Node) × Bool) :=
  loop ([], false) (arrayPatternStep g)

def arrayPattern : Parse Node := do
  let start ← pos
  require .openBracket
  let (rev, trailing) ← arrayPatternElements g
  require .closeBracket
  finish start (.arrayPattern rev.reverse trailing)

/-- A name or a pattern. -/
def binding (missing : Message) : Parse Node := do
  match ← token with
  | .openBrace => objectPattern g
  | .openBracket => arrayPattern g
  | _ =>
      if ← isIdentifier then return (← identifier).toBinding
      errorHere missing []
      return (← missingIdentifier).toBinding

end Parse
end Erasure
