import Erasure.Decimal.Literal
import Erasure.Syntax.Children

/-!
Questions about syntax that several phases ask.
-/

namespace Erasure

instance : Inhabited Node := ⟨⟨0, ⟨0, 0⟩, .emptyStmt⟩⟩

instance : Inhabited Form := ⟨.emptyStmt⟩

namespace FunctionLike

/-- A function without parameters and body. -/
def empty : FunctionLike :=
  { isAsync := false, isGenerator := false, typeParameters := none, parameters := []
    returnType := none, body := none }

end FunctionLike

mutual

/-- Strip parentheses. -/
def Node.skipParentheses : Node → Node
  | ⟨id, span, form⟩ => (form.insideParentheses?).getD ⟨id, span, form⟩

def Form.insideParentheses? : Form → Option Node
  | .parenthesized inner => some inner.skipParentheses
  | _ => none

end

mutual

/-- Strip parentheses and assertions about types. -/
def Node.skipOuter : Node → Node
  | ⟨id, span, form⟩ => (form.insideOuter?).getD ⟨id, span, form⟩

def Form.insideOuter? : Form → Option Node
  | .parenthesized inner => some inner.skipOuter
  | .nonNull operand => some operand.skipOuter
  | .asExpr operand _ => some operand.skipOuter
  | .satisfiesExpr operand _ => some operand.skipOuter
  | .typeAssertion _ operand => some operand.skipOuter
  | _ => none

end

mutual

/-- The names that a binding introduces, in source order. -/
def Node.bindingIdentifiers : Node → List Identifier
  | ⟨id, span, form⟩ => form.bindingIdentifiersAt id span

def Form.bindingIdentifiersAt (id : NodeId) (span : Span) : Form → List Identifier
  | .bindingIdentifier text => [{ id, span, text }]
  | .objectPattern elements => bindingIdentifiersOf elements
  | .arrayPattern elements _ => bindingIdentifiersOfHoles elements
  | .bindingElement _ _ name _ => name.bindingIdentifiers
  | _ => []

def bindingIdentifiersOf : List Node → List Identifier
  | [] => []
  | n :: ns => n.bindingIdentifiers ++ bindingIdentifiersOf ns

def bindingIdentifiersOfHoles : List (Option Node) → List Identifier
  | [] => []
  | n :: ns => bindingIdentifiersOfHole n ++ bindingIdentifiersOfHoles ns

def bindingIdentifiersOfHole : Option Node → List Identifier
  | none => []
  | some n => n.bindingIdentifiers

end

namespace Form

/-- Expressions that only inform the type checker. -/
def isAssertion : Form → Bool
  | .asExpr _ _ | .satisfiesExpr _ _ | .typeAssertion _ _ | .nonNull _ => true
  | _ => false

/-- Types and type parameters. -/
def isTypeSyntax : Form → Bool
  | .keywordType _ | .thisType | .referenceType _ _ | .arrayType _ | .tupleType _
  | .namedTupleMember _ _ _ _ | .optionalType _ | .restType _ | .unionType _
  | .intersectionType _ | .functionType _ | .constructorType _ _ | .typeLiteral _
  | .literalType _ | .templateLiteralType _ _ | .typeQuery _ _ | .typeOperator _ _
  | .indexedAccessType _ _ | .conditionalType _ _ _ _ | .inferType _ | .mappedType _ _ _ _ _
  | .parenthesizedType _ | .predicateType _ _ _ | .importType _ _ _ _ | .missingType
  | .typeElement _ _ | .typeParameter _ _ _ _ => true
  | _ => false

/-- The modifiers of a statement that can have some. -/
def modifiers? : Form → Option Modifiers
  | .varStmt m _ | .functionStmt m _ _ | .interfaceStmt m _ _ _ _ | .typeAliasStmt m _ _ _
  | .enumStmt m _ _ | .importStmt m _ _ _ | .importEqualsStmt m _ _ _ | .exportStmt m _ _ _ _ =>
      some m
  | .classStmt cls =>
      match cls.form with
      | .classLike c => some c.modifiers
      | _ => none
  | .moduleStmt declaration =>
      match declaration.form with
      | .moduleDeclaration m _ _ _ => some m
      | _ => none
  | _ => none

def isAmbient (f : Form) : Bool := f.modifiers?.any Modifiers.isAmbient

/-- Statements that make a file a module. -/
def isModuleIndicator : Form → Bool
  | .importStmt _ _ _ _ | .exportStmt _ _ _ _ _ | .exportAssignment _ _ => true
  | .importEqualsStmt _ _ _ (.external _) => true
  | f => f.modifiers?.any Modifiers.isExport

/-- Statements that leave nothing in the output. -/
def isTypeOnlyStatement : Form → Bool
  | .interfaceStmt _ _ _ _ _ | .typeAliasStmt _ _ _ _ | .namespaceExport _ => true
  | .importStmt _ clause _ _ => clause.any ImportClause.isTypeOnly
  | .exportStmt _ isTypeOnly _ _ _ => isTypeOnly
  | .importEqualsStmt _ isTypeOnly _ _ => isTypeOnly
  | f => f.isAmbient

/-- The text of a property key that is known without running the program. -/
def staticKey? : Form → Option String
  | .identifierKey name | .privateKey name => some name
  | .stringKey _ value => some value
  | .numericKey raw => some (Decimal.normalizeLiteral raw)
  | .computedKey expression =>
      match expression.form with
      | .stringLiteral _ value | .templateLiteral _ value => some value
      | .numericLiteral raw => some (Decimal.normalizeLiteral raw)
      | _ => none
  | _ => none

/-- The function of a function, a class member or an object member. -/
def function? : Form → Option FunctionLike
  | .functionLike func => some func
  | _ => none

end Form

namespace Node

def staticKey? (n : Node) : Option String := n.form.staticKey?

/-- The function of a function node. -/
def func (n : Node) : FunctionLike := n.form.function?.getD FunctionLike.empty

/-- The class of a class node. -/
def classLike (n : Node) : ClassLike :=
  match n.form with
  | .classLike c => c
  | _ =>
      { decorators := [], modifiers := {}, name := none, typeParameters := none, base := none
        interfaces := [], members := [] }

/-- The parameter of a parameter node. -/
def parameter (n : Node) : Parameter :=
  match n.form with
  | .parameter p => p
  | _ =>
      { decorators := [], modifiers := {}, isRest := false, name := n, isOptional := false
        type := none, initializer := none }

/-- The statements of a block. -/
def statements (n : Node) : List Node :=
  match n.form with
  | .block statements _ _ | .moduleBlock statements => statements
  | _ => []

/-- The name of an expression that is a plain name. -/
def identifier? (n : Node) : Option String :=
  match n.form with
  | .identifier name => some name
  | _ => none

/-- The name of a binding that is a plain name. -/
def bindingName? (n : Node) : Option Identifier :=
  match n.form with
  | .bindingIdentifier text => some { id := n.id, span := n.span, text }
  | _ => none

end Node

namespace Parameter

/-- A parameter `this` only has a type. -/
def isThis (p : Parameter) : Bool := p.name.bindingName?.any fun name => name.text = "this"

end Parameter

namespace ClassLike

/-- The constructor that has a body. -/
def constructor? (c : ClassLike) : Option Node :=
  c.members.findSome? fun m =>
    match m.form with
    | .classMember _ _ (.constructorMember func) =>
        if func.func.body.isSome then some func else none
    | _ => none

/-- A class that extends something other than `null`. -/
def isDerived (c : ClassLike) : Bool :=
  c.base.any fun h =>
    match h.form with
    | .heritage _ expression _ =>
        match expression.form with
        | .nullLiteral => false
        | _ => true
    | _ => true

end ClassLike

/-- Class members that leave nothing in the output. -/
def Form.isErasedMember (ambient : Bool) : Form → Bool
  | .indexMember _ _ => true
  | .methodMember _ _ func | .getterMember _ func | .setterMember _ func
  | .constructorMember func => func.func.body.isNone
  | .propertyMember _ _ _ _ _ => ambient
  | _ => false

mutual

/-- Whether a namespace or a statement in one leaves something in the output. Const enums do if
they are preserved. -/
def Node.isInstantiated (preserveConstEnums : Bool) : Node → Bool
  | ⟨_, _, form⟩ => form.isInstantiated preserveConstEnums

def Form.isInstantiated (preserveConstEnums : Bool) : Form → Bool
  | .moduleDeclaration modifiers _ body _ =>
      !modifiers.isAmbient && anyInstantiatedIn preserveConstEnums body
  | .moduleBlock statements => anyInstantiated preserveConstEnums statements
  | .interfaceStmt _ _ _ _ _ | .typeAliasStmt _ _ _ _ | .emptyStmt => false
  | .moduleStmt declaration => declaration.isInstantiated preserveConstEnums
  | .importStmt _ _ _ _ | .exportStmt _ _ _ _ _ => false
  | .importEqualsStmt modifiers isTypeOnly _ _ => !isTypeOnly && modifiers.isExport
  | .enumStmt modifiers name members =>
      if modifiers.has .isConst then preserveConstEnums
      else !(Form.enumStmt modifiers name members).isTypeOnlyStatement
  | form => !form.isTypeOnlyStatement

def anyInstantiated (preserveConstEnums : Bool) : List Node → Bool
  | [] => false
  | n :: ns => n.isInstantiated preserveConstEnums || anyInstantiated preserveConstEnums ns

def anyInstantiatedIn (preserveConstEnums : Bool) : Option Node → Bool
  | none => false
  | some n => n.isInstantiated preserveConstEnums

end

end Erasure
