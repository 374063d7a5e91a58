import Erasure.Parse.Imports
import Erasure.Parse.Variables

/-!
Declarations, which modifiers and decorators can precede.
-/

namespace Erasure.Parse

/-- After `export`: the tokens that show that a declaration follows. -/
def followsExport : TokenKind → Bool
  | .equals | .asterisk | .openBrace | .defaultKw | .asKw | .atSign => true
  | _ => false

/-- Whether the current token starts a declaration; none after a modifier that leaves it open. -/
def declarationEvidence? : Parse (Option Bool) := do
  match ← token with
  | .varKw | .letKw | .constKw | .functionKw | .classKw | .enumKw | .atSign => return some true
  | .interfaceKw | .typeKw =>
      advance
      return some (!(← afterLineBreak) && (← isIdentifierOrKeyword))
  | .moduleKw | .namespaceKw =>
      advance
      if ← afterLineBreak then return some false
      return some ((← isIdentifierOrKeyword) || (← isToken .stringLiteral))
  | .abstractKw | .accessorKw | .asyncKw | .declareKw | .privateKw | .protectedKw | .publicKw
  | .readonlyKw | .overrideKw =>
      advance
      return if ← afterLineBreak then some false else none
  | .globalKw =>
      advance
      return some (← isOneOf [.openBrace, .identifier, .exportKw])
  | .importKw =>
      advance
      if ← isOneOf [.stringLiteral, .asterisk, .openBrace] then return some true
      return some (← isIdentifierOrKeyword)
  | .exportKw =>
      advance
      let following ← if ← isToken .typeKw then lookAhead next else token
      return if followsExport following then some true else none
  | .staticKw =>
      advance
      return none
  | _ => return some false

/-- Look at a token for the start of a declaration and go on behind a modifier. -/
def declarationStep (_ : Bool) : Parse (ForInStep Bool) := do
  match ← declarationEvidence? with
  | some found => return .done found
  | none => return .yield false

/-- A declaration starts here, possibly behind modifiers. -/
def isDeclarationStart : Parse Bool := lookAhead (loop false declarationStep)

/-- Modifiers that only members of classes have. -/
def isMemberModifier : TokenKind → Bool
  | .publicKw | .privateKw | .protectedKw | .staticKw | .readonlyKw | .overrideKw | .accessorKw =>
      true
  | _ => false

def checkStatementModifiers (ms : Modifiers) : Parse Unit := do
  if let some m := ms.list.find? fun m => isMemberModifier m.kind then
    errorAt .misplacedModifiers m.span []

/-- Modifiers of two lists together. -/
def joinModifiers (ms more : Modifiers) : Modifiers :=
  { more.flags.foldl Modifiers.setFlag ms with list := ms.list ++ more.list }

variable (g : Grammar)

/-- Decorators and modifiers. Decorators can follow modifiers, too. -/
def declarationHead : Parse (List Node × Modifiers) := do
  let ds ← decorators g
  let ms ← modifiers .statement
  if ← isToken .atSign then
    let moreDecorators ← decorators g
    let more ← modifiers .statement
    return (ds ++ moreDecorators, joinModifiers ms more)
  return (ds, ms)

def functionDeclaration (start : Nat) (ms : Modifiers) : Parse Node := do
  require .functionKw
  let isGenerator ← accept .asterisk
  let name ← when? (do return (← isIdentifier) || !ms.isDefault) identifier
  let func ← functionRest g start (ms.has .isAsync) isGenerator false
  finish start (.functionStmt ms name func)

def classDeclaration (start : Nat) (ds : List Node) (ms : Modifiers) : Parse Node := do
  let keyword ← tokenSpan
  let cls ← classLike g start ds ms
  if cls.classLike.name.isNone && !ms.isDefault then
    errorAt .unnamedClass ⟨keyword.start, keyword.start + 5⟩ []
  finish start (.classStmt cls)

def interfaceBases : Parse (List Node) := do
  if ← accept .extendsKw then heritageList g true else return []

def interfaceDeclaration (start : Nat) (ms : Modifiers) : Parse Node := do
  require .interfaceKw
  let name ← identifier
  let typeParameters ← typeParameters? g
  let bases ← interfaceBases g
  let members ← typeMembers g
  finish start (.interfaceStmt ms name typeParameters bases members)

def typeAlias (start : Nat) (ms : Modifiers) : Parse Node := do
  require .typeKw
  let name ← identifier
  let typeParameters ← typeParameters? g
  require .equals
  let type ← g .type
  semicolon
  finish start (.typeAliasStmt ms name typeParameters type)

def enumMember : Parse Node := do
  let start ← pos
  let name ← propertyKey g
  let initializer ← allowIn (initializer? g)
  finish start (.enumMember name initializer)

def enumMemberStep : Parse (Option Node × Bool) := do
  if ← atClose .closeBrace then return (none, true)
  if !(← isKey) then
    errorHere .enumMemberExpected []
    if endsList (← token) then return (none, true)
    advance
    return (none, false)
  let m ← enumMember g
  elementEnd
  return (some m, false)

def enumMembers : Parse (List Node) := do
  if !(← expect .openBrace) then return []
  let members ← collect (enumMemberStep g)
  require .closeBrace
  return members

def enumDeclaration (start : Nat) (ms : Modifiers) : Parse Node := do
  require .enumKw
  let name ← identifier
  let members ← enumMembers g
  finish start (.enumStmt ms name members)

def moduleStatements : Parse (List Node) := do
  if ← expect .openBrace then
    let statements ← statementList g (· = .closeBrace)
    require .closeBrace
    return statements
  else return []

def moduleBlock : Parse Node := do
  let start ← pos
  let statements ← moduleStatements g
  finish start (.moduleBlock statements)

/-- What a namespace contains. Every dot nests a namespace that is exported, and ambient if the one
around it is. -/
def namespaceContent (ms : Modifiers) : Parse Node := do
  if ← accept .dot then
    let inner : Modifiers := { flags := .isExport :: if ms.isAmbient then [.isAmbient] else [] }
    g (.namespaceBody (← pos) inner)
  else moduleBlock g

/-- A namespace from its name on. -/
def namespaceBody (start : Nat) (ms : Modifiers) : Parse Node := do
  let name ← identifier
  let body ← namespaceContent g ms
  finish start (.moduleDeclaration ms (.identifier name) (some body) false)

def stringModuleBody? : Parse (Option Node) := do
  if ← isToken .openBrace then return some (← moduleBlock g)
  semicolon
  return none

/-- A module named by a string, from the string on. -/
def stringModule (start : Nat) (ms : Modifiers) : Parse Node := do
  let name ← stringLiteral
  let body ← stringModuleBody? g
  finish start (.moduleDeclaration ms (.string name) body false)

def moduleDeclaration (start : Nat) (ms : Modifiers) : Parse Node := do
  if ← isToken .globalKw then
    let name ← identifierName
    let body ← moduleBlock g
    finish start (.moduleDeclaration ms (.identifier name) (some body) true)
  else
    advance
    if ← isToken .stringLiteral then stringModule g start ms else namespaceBody g start ms

def moduleStatement (start : Nat) (ms : Modifiers) : Parse Node := do
  let declaration ← moduleDeclaration g start ms
  finish start (.moduleStmt declaration)

/-- What follows the decorators and modifiers. -/
def declarationRest (start : Nat) (ds : List Node) (ms : Modifiers) : Parse Node := do
  match ← token with
  | .varKw | .letKw | .constKw | .usingKw | .awaitKw => variableStatement g start ms
  | .functionKw => functionDeclaration g start ms
  | .classKw => classDeclaration g start ds ms
  | .interfaceKw => interfaceDeclaration g start ms
  | .typeKw => typeAlias g start ms
  | .enumKw => enumDeclaration g start ms
  | .globalKw | .moduleKw | .namespaceKw => moduleStatement g start ms
  | .importKw => importDeclaration g start ms
  | .exportKw => exportForm g start ms
  | _ =>
      if ds.isEmpty && ms.list.isEmpty then g .statement
      else
        errorHere .declarationExpected []
        finish start .missingStmt

def declaration : Parse Node := do
  let start ← pos
  let (ds, ms) ← declarationHead g
  checkStatementModifiers ms
  let isAmbient := (← context).ambient || ms.isAmbient
  withContext (fun c => { c with ambient := isAmbient }) (declarationRest g start ds ms)

end Erasure.Parse
