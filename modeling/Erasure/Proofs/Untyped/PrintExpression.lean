import Erasure.Proofs.Untyped.PrintFunction

/-!
Literals and expressions as a whole are printed alike with and without the types in them. What an
assertion is erased to, and the parentheses that come back around it, do not depend on its type.
-/

namespace Erasure.Print

variable {M : Matching} {outside : NodeId → Prop}

namespace Alike

theorem elements {step step' : Node → Bool → Print Unit} {ns : List Node}
    (hns : ApartAll outside ns)
    (h : ∀ n : Node, n.Apart outside → ∀ isLast,
      Alike M outside (step n isLast) (step' n.untyped isLast))
    (gap : String) (isBroken : Bool) (breaks : List Bool) :
    Alike M outside (Print.elements step gap isBroken breaks ns)
      (Print.elements step' gap isBroken breaks (untypedAll ns)) := by
  induction ns generalizing gap isBroken breaks with
  | nil => exact .pure isBroken
  | cons n ns ih =>
      have hempty : (untypedAll ns).isEmpty = ns.isEmpty := by cases ns <;> rfl
      have hbroken : Alike M outside
          (do Print.line; step n ns.isEmpty; Print.elements step " " true breaks.tail ns)
          (do Print.line; step' n.untyped (untypedAll ns).isEmpty
              Print.elements step' " " true breaks.tail (untypedAll ns)) := by
        rw [hempty]
        exact line.seq ((h n hns.1 _).seq (ih hns.2 _ _ _))
      rw [untypedAll, Print.elements, Print.elements]
      refine .ite Iff.rfl (.ite Iff.rfl hbroken (.indented hbroken)) ?_
      rw [hempty]
      exact (write gap).seq ((h n hns.1 _).seq (ih hns.2 _ _ _))

theorem bracketed (opening closing gap : String) (layout : ListLayout)
    {step step' : Node → Bool → Print Unit} {ns : List Node} (hns : ApartAll outside ns)
    (h : ∀ n : Node, n.Apart outside → ∀ isLast,
      Alike M outside (step n isLast) (step' n.untyped isLast)) :
    Alike M outside (Print.bracketed opening closing gap layout step ns)
      (Print.bracketed opening closing gap layout step' (untypedAll ns)) := by
  refine (write opening).seq ((elements hns h gap false _).bind fun isBroken => ?_)
  exact .ite Iff.rfl (line.seq (write closing)) ((write gap).seq (write closing))

section
variable {print print' : Slot → Node → Print Bool}
variable (hprint : NodesAlike M outside print print')
include hprint

theorem arrayLiteral (layout : ListLayout) {ns : List Node} (hns : ApartAll outside ns) :
    Alike M outside (Print.arrayLiteral print layout ns)
      (Print.arrayLiteral print' layout (untypedAll ns)) := by
  have hempty : (untypedAll ns).isEmpty = ns.isEmpty := by cases ns <;> rfl
  unfold Print.arrayLiteral
  rw [hempty]
  refine .ite Iff.rfl (write "[]") (bracketed _ _ _ layout hns fun n hn isLast => ?_)
  rw [Node.form_untyped, isHole_untyped]
  exact (operand hprint .spread hn).seq (.ite Iff.rfl (write ",") unit)

theorem shorthandProperty (name : Identifier) {initial? : Option Node}
    (hinitial : ApartOption outside initial?) :
    Alike M outside (Print.shorthandProperty print name initial?)
      (Print.shorthandProperty print' name (untypedOption initial?)) := by
  refine (identifier name).seq (.read fun p p' hp => ?_)
  rw [hp.replacement? name.text]
  exact .seq (option_same fun _ _ => write _) (initializer hprint hinitial)

theorem objectElement {n : Node} (hn : n.Apart outside) :
    Alike M outside (Print.objectElement print n) (Print.objectElement print' n.untyped) := by
  have hform := hn.form
  unfold Print.objectElement
  rw [Node.form_untyped]
  cases h : n.form with
  | propertyAssignment key inner =>
      rw [h] at hform
      exact (propertyKey hprint hform.1).seq ((write ": ").seq (value hprint hform.2))
  | shorthandProperty name initial? =>
      rw [h] at hform
      exact shorthandProperty hprint name hform
  | spreadProperty inner =>
      rw [h] at hform
      exact spread hprint hform
  | methodProperty key func =>
      rw [h] at hform
      exact method hprint none hform.1 hform.2
  | getterProperty key func =>
      rw [h] at hform
      exact method hprint (some "get") hform.1 hform.2
  | setterProperty key func =>
      rw [h] at hform
      exact method hprint (some "set") hform.1 hform.2
  | _ => exact unit

theorem objectLiteral (layout : ListLayout) {ns : List Node} (hns : ApartAll outside ns) :
    Alike M outside (Print.objectLiteral print layout ns)
      (Print.objectLiteral print' layout (untypedAll ns)) := by
  have hempty : (untypedAll ns).isEmpty = ns.isEmpty := by cases ns <;> rfl
  unfold Print.objectLiteral
  rw [hempty]
  refine .ite Iff.rfl (write _) (bracketed _ _ _ layout hns fun n hn isLast => ?_)
  rw [Node.span_untyped]
  refine (leadingComments _).seq ((objectElement hprint hn).seq (.when Iff.rfl (write ",") ?_))
  exact (skipComments _).seq (trailingComments _)

theorem expressionForm {n : Node} (hn : n.Apart outside) :
    Alike M outside (Print.expressionForm print n) (Print.expressionForm print' n.untyped) := by
  have hform := hn.form
  unfold Print.expressionForm
  rw [Node.form_untyped, Node.span_untyped]
  cases h : n.form with
  | identifier name => exact reference name n.span
  | privateName _ | numericLiteral _ | bigIntLiteral _ | regExpLiteral _ | stringLiteral _ _
  | templateLiteral _ _ | thisExpr | superExpr | nullLiteral | booleanLiteral _ | importExpr
  | metaProperty _ _ => exact .write _
  | template head spans =>
      rw [h] at hform
      exact template hprint head hform
  | arrayLiteral elements layout =>
      rw [h] at hform
      exact arrayLiteral hprint layout hform
  | objectLiteral properties layout =>
      rw [h] at hform
      exact objectLiteral hprint layout hform
  | functionExpr _ name? func =>
      rw [h] at hform
      exact functionExpression hprint name? hform
  | arrowFunction f isBare =>
      rw [h] at hform
      exact arrowFunction hprint hn hform isBare
  | classExpr cls =>
      rw [h] at hform
      exact classExpression hprint hform
  | parenthesized inner =>
      rw [h] at hform
      exact (write "(").seq ((expression hprint hform).seq (write ")"))
  | propertyAccess object name isOptional breakBeforeDot =>
      rw [h] at hform
      exact propertyAccess hprint hform name isOptional breakBeforeDot
  | elementAccess object index isOptional =>
      rw [h] at hform
      exact elementAccess hprint hform.1 hform.2 isOptional
  | call callee _ ns isOptional =>
      rw [h] at hform
      exact call hprint hform.1 hform.2.2 isOptional
  | newExpr callee _ ns? =>
      rw [h] at hform
      exact newCall hprint hform.1 hform.2.2
  | taggedTemplate tag _ quasi =>
      rw [h] at hform
      exact taggedTemplate hprint hform.1 hform.2.2
  | prefixUnary operator inner =>
      rw [h] at hform
      exact prefixOperator hprint operator hform
  | postfixUnary operator inner =>
      rw [h] at hform
      exact (operand hprint .leftHandSide hform).seq (write operator.text)
  | binary left operator right breakBefore breakAfter =>
      rw [h] at hform
      exact binary hprint hform.1 operator hform.2 breakBefore breakAfter
  | conditional condition whenTrue whenFalse layout =>
      rw [h] at hform
      exact conditional hprint hform.1 hform.2.1 hform.2.2 layout
  | typeofExpr inner =>
      rw [h] at hform
      exact keywordOperator hprint "typeof" hform
  | voidExpr inner =>
      rw [h] at hform
      exact keywordOperator hprint "void" hform
  | deleteExpr inner =>
      rw [h] at hform
      exact keywordOperator hprint "delete" hform
  | awaitExpr inner =>
      rw [h] at hform
      exact keywordOperator hprint "await" hform
  | yieldExpr isDelegate inner? =>
      rw [h] at hform
      exact yieldOperator hprint isDelegate hform
  | spread inner =>
      rw [h] at hform
      exact spread hprint hform
  | _ => exact unit

omit hprint in
theorem needsParentheses_untyped (n : Node) (constant? : Option String) (required : Precedence)
    (besideCoalesce : Bool) :
    needsParentheses n.untyped constant? required besideCoalesce =
      needsParentheses n constant? required besideCoalesce := by
  unfold needsParentheses
  rw [Node.form_untyped, Form.insideErased?_untyped, Option.isSome_map, Node.erased_untyped]
  dsimp only
  rw [Node.form_untyped, isLogical_untyped, Node.precedence, Node.form_untyped,
    Form.precedence_untyped, Node.precedence]

theorem operandForm (required : Precedence) (besideCoalesce : Bool) {n : Node}
    (hn : n.Apart outside) :
    Alike M outside (Print.operandForm print required besideCoalesce n)
      (Print.operandForm print' required besideCoalesce n.untyped) := by
  have herased := Node.Apart.erased n hn
  refine .read fun p p' hp => ?_
  rw [Node.erased_untyped, ← hp.constant? n.erased]
  dsimp only
  rw [needsParentheses_untyped]
  refine .when Iff.rfl (write "(") ?_
  have hclosing : Alike M outside
      (if needsParentheses n (p.constant? n.erased) required besideCoalesce then Print.write ")"
        else Pure.pure ())
      (if needsParentheses n (p.constant? n.erased) required besideCoalesce then Print.write ")"
        else Pure.pure ()) := .ite Iff.rfl (write ")") unit
  split
  · exact (constant n.erased _).seq hclosing
  · exact (expressionForm hprint herased).seq hclosing

end
end Alike
end Erasure.Print
