import Erasure.Print.Class
import Erasure.Print.Collection

/-!
Printing of expressions by their form.
-/

namespace Erasure.Print
variable (print : Slot → Node → Print Bool)

/-- Print an expression around which nothing is erased. -/
def expressionForm (n : Node) : Print Unit :=
  match n.form with
  | .identifier name => reference name n.span
  | .privateName text | .numericLiteral text | .bigIntLiteral text | .regExpLiteral text
  | .stringLiteral text _ | .templateLiteral text _ => write text
  | .thisExpr => write "this"
  | .superExpr => write "super"
  | .nullLiteral => write "null"
  | .booleanLiteral b => write (if b then "true" else "false")
  | .importExpr => write "import"
  | .metaProperty keyword name => write (keyword.text ++ "." ++ name)
  | .template head spans => template print head spans
  | .arrayLiteral elements layout => arrayLiteral print layout elements
  | .objectLiteral properties layout => objectLiteral print layout properties
  | .functionExpr _ name? func => functionExpression print name? func
  | .arrowFunction f isBare => arrowFunction print n f isBare
  | .classExpr cls => classExpression print cls
  | .parenthesized inner => do
      write "("
      expression print inner
      write ")"
  | .propertyAccess object name isOptional breakBeforeDot =>
      propertyAccess print object name isOptional breakBeforeDot
  | .elementAccess object index isOptional => elementAccess print object index isOptional
  | .call callee _ ns isOptional => call print callee ns isOptional
  | .newExpr callee _ ns? => newCall print callee ns?
  | .taggedTemplate tag _ quasi => taggedTemplate print tag quasi
  | .prefixUnary operator inner => prefixOperator print operator inner
  | .postfixUnary operator inner => do
      operand print .leftHandSide inner
      write operator.text
  | .binary left operator right breakBefore breakAfter =>
      binary print left operator right breakBefore breakAfter
  | .conditional condition whenTrue whenFalse layout =>
      conditional print condition whenTrue whenFalse layout
  | .typeofExpr inner => keywordOperator print "typeof" inner
  | .voidExpr inner => keywordOperator print "void" inner
  | .deleteExpr inner => keywordOperator print "delete" inner
  | .awaitExpr inner => keywordOperator print "await" inner
  | .yieldExpr isDelegate inner? => yieldOperator print isDelegate inner?
  | .spread inner => spread print inner
  | _ => pure ()

/-- A logical operator, which must not stand next to the coalescing one. -/
def isLogical : Form → Bool
  | .binary _ operator _ _ _ => operator.isLogicalOperator
  | _ => false

/-- Whether an expression needs parentheses that it did not have: something around it was erased,
or it was replaced by a constant, and it binds looser than its place allows. -/
def needsParentheses (n : Node) (constant? : Option String) (required : Precedence)
    (besideCoalesce : Bool) : Bool :=
  let isStripped := n.form.insideErased?.isSome
  let inner := n.erased
  let precedence := match constant? with
    | some text => if text.startsWith "-" then .unary else .primary
    | none => inner.precedence
  ((isStripped || constant?.isSome) && precedence < required) ||
    (isStripped && besideCoalesce && isLogical inner.form)

/-- Print an expression where one of at least some precedence is needed. -/
def operandForm (required : Precedence) (besideCoalesce : Bool) (n : Node) : Print Unit := do
  let inner := n.erased
  let constant? := (← read).constant? inner
  let isParenthesized := needsParentheses n constant? required besideCoalesce
  if isParenthesized then write "("
  match constant? with
  | some text => constant inner text
  | none => expressionForm print inner
  if isParenthesized then write ")"

end Erasure.Print
