import Erasure.Check.Place

/-!
Checks on what is assigned to: variables and properties that are not constant.
-/

namespace Erasure

/-- What an assignment sets. -/
inductive AssignmentTarget where
  | variable_ (name : String) (span : Span)
  /-- A property of `this`. -/
  | ownProperty (name : Identifier)
  /-- An expression that cannot be set. -/
  | invalid (span : Span)

/-- The property of `this` that an access names. -/
def AssignmentTarget.ofAccess (object : Node) (name : MemberName) : List AssignmentTarget :=
  match object.skipParentheses.form with
  | .thisExpr => if name.isPrivate then [] else [.ownProperty name.ident]
  | _ => []

mutual

/-- What the left side of an assignment sets, in source order. What cannot be set is reported for
the expression with its parentheses. -/
def Node.assignmentTargets (whole : Span) : Node → List AssignmentTarget
  | ⟨_, span, form⟩ => form.assignmentTargets whole span

def Form.assignmentTargets (whole span : Span) : Form → List AssignmentTarget
  | .parenthesized inner => inner.assignmentTargets whole
  | .nonNull operand => operand.assignmentTargets whole
  | .asExpr operand _ => operand.assignmentTargets whole
  | .satisfiesExpr operand _ => operand.assignmentTargets whole
  | .typeAssertion _ operand => operand.assignmentTargets whole
  | .identifier name => [.variable_ name span]
  | .propertyAccess object name _ _ => AssignmentTarget.ofAccess object name
  | .elementAccess _ _ _ => []
  | .arrayLiteral elements _ => targetsOfElements elements
  | .objectLiteral properties _ => targetsOfProperties properties
  | _ => [.invalid whole]

def targetsOfElements : List Node → List AssignmentTarget
  | [] => []
  | n :: ns => n.targetsOfElement ++ targetsOfElements ns

/-- An element of an array pattern, which can be a hole or the rest. -/
def Node.targetsOfElement : Node → List AssignmentTarget
  | ⟨_, _, .omitted⟩ => []
  | ⟨_, _, .spread inner⟩ => inner.targetsOfInitialized
  | ⟨_, _, .binary left .equals _ _ _⟩ => left.assignmentTargets left.span
  | ⟨_, span, form⟩ => form.assignmentTargets span span

def targetsOfProperties : List Node → List AssignmentTarget
  | [] => []
  | n :: ns => n.targetsOfProperty ++ targetsOfProperties ns

def Node.targetsOfProperty : Node → List AssignmentTarget
  | ⟨_, _, form⟩ => form.targetsOfProperty

def Form.targetsOfProperty : Form → List AssignmentTarget
  | .propertyAssignment _ value => value.targetsOfInitialized
  | .shorthandProperty name _ => [.variable_ name.text name.span]
  | .spreadProperty operand => operand.targetsOfInitialized
  | _ => []

/-- An element with an initializer is set like the element. -/
def Node.targetsOfInitialized : Node → List AssignmentTarget
  | ⟨_, _, .binary left .equals _ _ _⟩ => left.assignmentTargets left.span
  | ⟨_, span, form⟩ => form.assignmentTargets span span

end

/-- Arrays and objects, which on the left side of an assignment are patterns. -/
def Form.isPattern : Form → Bool
  | .arrayLiteral _ _ | .objectLiteral _ _ => true
  | _ => false

/-- What an assignment operator sets. Only the plain one takes patterns. -/
def Node.targetsOfAssignment (left : Node) (operator : TokenKind) : List AssignmentTarget :=
  if operator ≠ .equals && left.skipOuter.form.isPattern then [.invalid left.span]
  else left.assignmentTargets left.span

/-- What the operand of an update sets. Operands that cannot be set are left to other checks. -/
def Node.targetsOfUpdate (operand : Node) : List AssignmentTarget :=
  let target := operand.skipOuter
  match target.form with
  | .identifier _ | .propertyAccess _ _ _ _ => target.assignmentTargets target.span
  | _ => []

/-- What the head of a loop over an object sets. -/
def Node.targetsOfLoop (head : Node) : List AssignmentTarget :=
  if head.skipOuter.form.isPattern then head.assignmentTargets head.span
  else head.targetsOfUpdate

namespace Check

def variableTarget (name : String) (span : Span) : Check Unit := do
  let p ← read
  if !p.isEnumMember name then
    if let some id := p.resolve? name SymbolFlags.value then
      let symbol := p.job.bindings.symbol id
      if symbol.isImport then error .assignToImport span [name]
      else if symbol.valueDeclaration?.any fun d => d.kind.isConstant then
        error .assignToConstant span [name]

/-- A property of `this`, which outside of the constructor must not be readonly. -/
def ownPropertyTarget (name : Identifier) : Check Unit := do
  let p ← read
  let b := p.job.bindings
  let member? := p.function.thisClass?.bind fun cls => (b.symbol cls).members.find? name.text
  let isReadonly := member?.any fun member =>
    (b.symbol member).declarations.any fun d => d.kind = .property true
  if isReadonly && !p.function.isConstructor then
    error .assignToReadonly name.span [name.text]

def target : AssignmentTarget → Check Unit
  | .variable_ name span => variableTarget name span
  | .ownProperty name => ownPropertyTarget name
  | .invalid span => error .invalidAssignmentTarget span []

end Check
end Erasure
