import Erasure.Syntax.Node

/-!
Precedence of operators and expressions. Parsing climbs it, and printing asks it where parentheses
are needed.
-/

namespace Erasure

/-- Levels from loosest to tightest. The coalescing operator binds like the conditional one. -/
inductive Precedence where
  | comma | spread | yield | assignment | conditional | logicalOr | logicalAnd | bitwiseOr
  | bitwiseXor | bitwiseAnd | equality | relational | shift | additive | multiplicative
  | exponentiation | unary | update | leftHandSide | member | primary
  deriving DecidableEq, Inhabited

namespace Precedence

def level (p : Precedence) : Nat := p.ctorIdx

instance : LE Precedence := ⟨fun p q => p.level ≤ q.level⟩

instance : LT Precedence := ⟨fun p q => p.level < q.level⟩

instance (p q : Precedence) : Decidable (p ≤ q) := inferInstanceAs (Decidable (p.level ≤ q.level))

instance (p q : Precedence) : Decidable (p < q) := inferInstanceAs (Decidable (p.level < q.level))

/-- The level of a binary operator; `as` and `satisfies` bind like comparisons. -/
def ofBinary? : TokenKind → Option Precedence
  | .questionQuestion => some conditional
  | .barBar => some logicalOr
  | .ampersandAmpersand => some logicalAnd
  | .bar => some bitwiseOr
  | .caret => some bitwiseXor
  | .ampersand => some bitwiseAnd
  | .equalsEquals | .notEquals | .strictEquals | .strictNotEquals => some equality
  | .lessThan | .greaterThan | .lessEquals | .greaterEquals | .instanceofKw | .inKw | .asKw
  | .satisfiesKw => some relational
  | .shiftLeft | .shiftRight | .shiftRightUnsigned => some shift
  | .plus | .minus => some additive
  | .asterisk | .slash | .percent => some multiplicative
  | .power => some exponentiation
  | _ => none

/-- The next level up. -/
def tighter : Precedence → Precedence
  | comma => spread
  | spread => yield
  | yield => assignment
  | assignment => conditional
  | conditional => logicalOr
  | logicalOr => logicalAnd
  | logicalAnd => bitwiseOr
  | bitwiseOr => bitwiseXor
  | bitwiseXor => bitwiseAnd
  | bitwiseAnd => equality
  | equality => relational
  | relational => shift
  | shift => additive
  | additive => multiplicative
  | multiplicative => exponentiation
  | exponentiation => unary
  | unary => update
  | update => leftHandSide
  | leftHandSide => member
  | member | primary => primary

/-- The levels that the operands of a binary operator need: operators of one level group to the
left, exponents and assignments to the right. -/
def ofOperands (operator : TokenKind) : Precedence × Precedence :=
  if operator.isAssignmentOperator then (leftHandSide, yield)
  else if operator = .power then (update, exponentiation)
  else
    let p := (ofBinary? operator).getD primary
    (p, p.tighter)

end Precedence

/-- The level of an expression, assertions included. -/
def Form.precedence : Form → Precedence
  | .binary _ operator _ _ _ =>
      if operator = .comma then .comma
      else if operator.isAssignmentOperator then .assignment
      else (Precedence.ofBinary? operator).getD .primary
  | .spread _ => .spread
  | .yieldExpr _ _ => .yield
  | .arrowFunction _ _ => .assignment
  | .conditional _ _ _ _ => .conditional
  | .asExpr _ _ | .satisfiesExpr _ _ => .relational
  | .prefixUnary _ _ | .typeofExpr _ | .voidExpr _ | .deleteExpr _ | .awaitExpr _
  | .typeAssertion _ _ => .unary
  | .postfixUnary _ _ => .update
  | .call _ _ _ _ | .taggedTemplate _ _ _ => .leftHandSide
  | .newExpr _ _ arguments => if arguments.isSome then .member else .leftHandSide
  | .propertyAccess _ _ _ _ | .elementAccess _ _ _ | .nonNull _ | .instantiation _ _
  | .metaProperty _ _ => .member
  | _ => .primary

def Node.precedence (n : Node) : Precedence := n.form.precedence

mutual

/-- The part of an expression that is printed first. Erased assertions are looked through. -/
def Node.leftmost : Node → Node
  | ⟨id, span, form⟩ => (form.leftmostPart?).getD ⟨id, span, form⟩

/-- The leftmost part of the operand that an expression starts with. -/
def Form.leftmostPart? : Form → Option Node
  | .binary left _ _ _ _ => some left.leftmost
  | .conditional condition _ _ _ => some condition.leftmost
  | .call callee _ _ _ => some callee.leftmost
  | .propertyAccess target _ _ _ => some target.leftmost
  | .elementAccess target _ _ => some target.leftmost
  | .nonNull operand => some operand.leftmost
  | .asExpr operand _ => some operand.leftmost
  | .satisfiesExpr operand _ => some operand.leftmost
  | .instantiation operand _ => some operand.leftmost
  | .typeAssertion _ operand => some operand.leftmost
  | .taggedTemplate tag _ _ => some tag.leftmost
  | .postfixUnary _ operand => some operand.leftmost
  | _ => none

end

/-- An expression that would be read as a block where a statement or function body can stand. -/
def Node.startsWithObject (n : Node) : Bool :=
  match n.leftmost.form with
  | .objectLiteral _ _ => true
  | _ => false

/-- The expression of an arrow function stands in parentheses if it starts with an object. -/
def FunctionLike.bodyNeedsParentheses (f : FunctionLike) : Bool :=
  f.body.any fun body => !body.form.isBlock && body.startsWithObject

end Erasure
