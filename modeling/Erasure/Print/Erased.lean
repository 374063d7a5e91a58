import Erasure.Print.Context

/-!
What an expression turns into without its types: the expression inside of assertions, the part that
is printed first, and the constant that a member of a const enum stands for.
-/

namespace Erasure

mutual

/-- Strip what is erased around an expression: assertions, type arguments, and the parentheses that
stood around an assertion only. -/
def Node.erased : Node → Node
  | ⟨id, span, form⟩ => (form.insideErased?).getD ⟨id, span, form⟩

/-- What is left of a form that is erased. -/
def Form.insideErased? : Form → Option Node
  | .asExpr operand _ => some operand.erased
  | .satisfiesExpr operand _ => some operand.erased
  | .typeAssertion _ operand => some operand.erased
  | .nonNull operand => some operand.erased
  | .instantiation operand _ => some operand.erased
  | .parenthesized inner =>
      if inner.skipParentheses.form.isAssertion then some inner.erased else none
  | _ => none

end

mutual

/-- The part of an expression that is printed first. -/
def Node.firstPrinted : Node → Node
  | ⟨id, span, form⟩ => (form.firstPrinted?).getD ⟨id, span, form⟩

def Form.firstPrinted? : Form → Option Node
  | .binary left _ _ _ _ => some left.firstPrinted
  | .conditional condition _ _ _ => some condition.firstPrinted
  | .call callee _ _ _ => some callee.firstPrinted
  | .propertyAccess target _ _ _ => some target.firstPrinted
  | .elementAccess target _ _ => some target.firstPrinted
  | .nonNull operand => some operand.firstPrinted
  | .asExpr operand _ => some operand.firstPrinted
  | .satisfiesExpr operand _ => some operand.firstPrinted
  | .typeAssertion _ operand => some operand.firstPrinted
  | .instantiation operand _ => some operand.firstPrinted
  | .taggedTemplate tag _ _ => some tag.firstPrinted
  | .postfixUnary _ operand => some operand.firstPrinted
  | .parenthesized inner =>
      if inner.skipParentheses.form.isAssertion then some inner.firstPrinted else none
  | _ => none

end

/-- An object, which after an arrow would be read as a block. -/
def Form.isObject : Form → Bool
  | .objectLiteral _ _ => true
  | _ => false

/-- Expressions that at the start of a statement would be read as something else. -/
def Form.isStatementLike : Form → Bool
  | .objectLiteral _ _ | .functionExpr _ _ _ | .classExpr _ => true
  | _ => false

namespace PrintPlace

mutual

/-- The symbol that a name, or a member of a namespace, denotes. -/
def entity? (p : PrintPlace) : Node → Option SymbolId
  | ⟨_, _, form⟩ => p.entityOf? form

def entityOf? (p : PrintPlace) : Form → Option SymbolId
  | .identifier name => p.resolve? name (SymbolFlags.value ++ SymbolFlags.namespaces)
  | .propertyAccess target ⟨name, false⟩ false _ =>
      (p.entity? target).bind fun owner => (p.job.bindings.symbol owner).exports.find? name.text
  | .parenthesized inner => p.entity? inner
  | _ => none

end

/-- The object and the name of an access to a member whose name is known. -/
def memberAccess? : Form → Option (Node × String)
  | .propertyAccess target ⟨name, false⟩ false _ => some (target, name.text)
  | .elementAccess target index false =>
      match index.form with
      | .stringLiteral _ value | .templateLiteral _ value => some (target, value)
      | _ => none
  | _ => none

/-- The constant that an access to a member of a const enum stands for. -/
def constant? (p : PrintPlace) (n : Node) : Option String := do
  let (object, name) ← memberAccess? n.form
  let owner ← p.entity? object
  if (p.job.bindings.symbol owner).isConstEnum then
    return (← p.job.enumValues.member? p.job.bindings owner name).expressionText
  else none

end PrintPlace
end Erasure
