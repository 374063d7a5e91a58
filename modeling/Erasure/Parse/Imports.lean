import Erasure.Parse.Operators

/-!
Imports and exports.
-/

namespace Erasure

/-- The names of an import or export specifier. -/
structure SpecifierNames where
  isTypeOnly : Bool
  property? : Option ExportName
  name : ExportName

namespace Parse

def exportName : Parse ExportName := do
  if ← isToken .stringLiteral then return .string (← stringLiteral)
  else return .identifier (← identifierName)

/-- What follows a first name `type`, which is a name or says that only a type is meant. The second
result tells whether another name can follow `as`. -/
def specifierAfterType (word : ExportName) : Parse (SpecifierNames × Bool) := do
  if ← isToken .asKw then
    let firstAs ← identifierName
    if ← isToken .asKw then
      let secondAs ← identifierName
      if ← isIdentifierOrKeyword then
        return (⟨true, some (.identifier firstAs), ← exportName⟩, false)
      return (⟨false, some word, .identifier secondAs⟩, false)
    if ← isIdentifierOrKeyword then return (⟨false, some word, ← exportName⟩, false)
    return (⟨true, none, .identifier firstAs⟩, true)
  if (← isIdentifierOrKeyword) || (← isToken .stringLiteral) then
    return (⟨true, none, ← exportName⟩, true)
  return (⟨false, none, word⟩, true)

/-- The name is the plain word `type`. -/
def isTypeWord : ExportName → Bool
  | .identifier name => name.text = "type"
  | .string _ => false

/-- The names up to an `as`, and whether one can follow. -/
def firstNames : Parse (SpecifierNames × Bool) := do
  let first ← exportName
  if isTypeWord first then specifierAfterType first else return (⟨false, none, first⟩, true)

def specifierNames : Parse SpecifierNames := do
  let (names, canRename) ← firstNames
  if canRename then
    if ← accept .asKw then
      return { names with property? := some names.name, name := ← exportName }
  return names

/-- One element with the comma after it. What is no name is reported and passed over. -/
def specifierStep {α : Type} (element : Parse α) : Parse (Option α × Bool) := do
  if ← atClose .closeBrace then return (none, true)
  if !(← isIdentifierOrKeyword) && !(← isToken .stringLiteral) then
    errorHere .identifierExpected []
    if endsList (← token) then return (none, true)
    advance
    return (none, false)
  let x ← element
  elementEnd
  return (some x, false)

/-- Elements in braces, separated by commas. -/
def specifierList {α : Type} (element : Parse α) : Parse (List α) := do
  require .openBrace
  let elements ← collect (specifierStep element)
  require .closeBrace
  return elements

/-- The local name of an import, which cannot be a string. -/
def localName : ExportName → Parse Identifier
  | .identifier name => return name
  | .string literal => do
      errorAt .identifierExpected literal.span []
      return { id := literal.id, span := literal.span, text := literal.value }

def importSpecifier : Parse ImportSpecifier := do
  let start ← pos
  let names ← specifierNames
  let name ← localName names.name
  return { id := ← freshId, span := (← get).spanFrom start, isTypeOnly := names.isTypeOnly
           property? := names.property?, name }

def exportSpecifier : Parse ExportSpecifier := do
  let start ← pos
  let names ← specifierNames
  return { id := ← freshId, span := (← get).spanFrom start, isTypeOnly := names.isTypeOnly
           property? := names.property?, name := names.name }

variable (g : Grammar)

def importAttribute : Parse Node := do
  let start ← pos
  let name ← tokenText
  advance
  require .colon
  let value ← g .assignment
  finish start (.importAttribute name value)

/-- The attributes of an import, if there are some. -/
def importAttributes? : Parse (Option Node) := do
  let start ← pos
  let keyword ← token
  let isPresent := keyword = .withKw || (keyword = .assertKw && !(← afterLineBreak))
  if !isPresent then return none
  advance
  let elements ← specifierList (importAttribute g)
  return some (← finish start (.importAttributes keyword elements))

def importBindings? : Parse (Option ImportBindings) := do
  if ← accept .asterisk then
    require .asKw
    return some (.all (← identifier))
  if !(← isToken .openBrace) then
    errorHere .tokenExpected ["\x7b"]
    return none
  return some (.named (← specifierList importSpecifier))

def isRequireCall : Parse Bool := do
  if ← isToken .requireKw then nextIsToken .openParen else return false

def moduleReference : Parse ModuleReference := do
  if ← isRequireCall then
    advance
    advance
    let specifier ← stringLiteral
    require .closeParen
    return .external specifier
  else return .entity (← entityName identifier)

/-- An import assignment from the equals sign on. -/
def importEqualsRest (start : Nat) (ms : Modifiers) (isTypeOnly : Bool) (name : Identifier) :
    Parse Node := do
  require .equals
  let reference ← moduleReference
  semicolon
  finish start (.importEqualsStmt ms isTypeOnly name reference)

def identifier? : Parse (Option Identifier) := when? isIdentifier identifier

/-- After a first name `type`: it says that only types are imported, and is no name. -/
def isTypeOnlyImport : Parse Bool := do
  let isFirstWord ←
    if !(← isToken .fromKw) then pure true
    else if ← isIdentifier then nextIs (isOneOf [.fromKw, .equals])
    else pure false
  if !isFirstWord then return false
  if ← isIdentifier then return true
  isOneOf [.asterisk, .openBrace]

/-- The bindings of an import. After a name they follow a comma. -/
def bindingsAfter? (name? : Option Identifier) : Parse (Option ImportBindings) := do
  if name?.isNone then importBindings?
  else if ← accept .comma then importBindings?
  else return none

/-- An import with bindings from the comma or `from` on. -/
def importFrom (start clauseStart : Nat) (ms : Modifiers) (isTypeOnly : Bool)
    (name? : Option Identifier) : Parse Node := do
  let bindings? ← bindingsAfter? name?
  let clause : ImportClause :=
    { id := ← freshId, span := (← get).spanFrom clauseStart, isTypeOnly, name?, bindings? }
  require .fromKw
  let specifier ← stringLiteral
  let attributes ← importAttributes? g
  semicolon
  finish start (.importStmt ms (some clause) specifier attributes)

/-- The name that is imported, and whether only types are. -/
def importName? : Parse (Option Identifier × Bool) := do
  let first ← identifier?
  if first.any fun name => name.text = "type" then
    if ← isTypeOnlyImport then return (← identifier?, true)
  return (first, false)

/-- An import with bindings, or an import assignment. -/
def importClauseRest (start : Nat) (ms : Modifiers) : Parse Node := do
  let clauseStart ← pos
  let (name?, isTypeOnly) ← importName?
  if let some name := name? then
    if !(← isOneOf [.comma, .fromKw]) then return ← importEqualsRest start ms isTypeOnly name
  importFrom g start clauseStart ms isTypeOnly name?

def importDeclaration (start : Nat) (ms : Modifiers) : Parse Node := do
  require .importKw
  if ← isToken .stringLiteral then
    let specifier ← stringLiteral
    let attributes ← importAttributes? g
    semicolon
    finish start (.importStmt ms none specifier attributes)
  else importClauseRest g start ms

/-- What is exported, and from where. -/
def exportClause : Parse (Option ExportClause × Option StringLiteral) := do
  if ← accept .asterisk then
    let name ← after? .asKw exportName
    require .fromKw
    return (name.map .all, some (← stringLiteral))
  let specifiers ← specifierList exportSpecifier
  let specifier ← after? .fromKw stringLiteral
  return (some (.named specifiers), specifier)

def isTypeOnlyExport : Parse Bool := do
  if ← isToken .typeKw then nextIs (isOneOf [.openBrace, .asterisk]) else return false

/-- Pass over the word that says that only types are exported. -/
def typeOnlySign : Parse Bool := do
  if ← isTypeOnlyExport then
    advance
    return true
  else return false

/-- Attributes can only follow a specifier. -/
def attributesAfter? (specifier : Option StringLiteral) : Parse (Option Node) := do
  if specifier.isSome then importAttributes? g else return none

def exportDeclaration (start : Nat) (ms : Modifiers) : Parse Node := do
  let isTypeOnly ← typeOnlySign
  let (clause, specifier) ← exportClause
  let attributes ← attributesAfter? g specifier
  semicolon
  finish start (.exportStmt ms isTypeOnly clause specifier attributes)

def exportAssignment (start : Nat) (isEquals : Bool) : Parse Node := do
  advance
  let expression ← g .assignment
  semicolon
  finish start (.exportAssignment isEquals expression)

/-- Forms of `export` in which it is no modifier. -/
def exportForm (start : Nat) (ms : Modifiers) : Parse Node := do
  require .exportKw
  match ← token with
  | .defaultKw => exportAssignment g start false
  | .equals => exportAssignment g start true
  | .asKw =>
      advance
      require .namespaceKw
      let name ← identifier
      semicolon
      finish start (.namespaceExport name)
  | _ => exportDeclaration g start ms

end Parse
end Erasure
