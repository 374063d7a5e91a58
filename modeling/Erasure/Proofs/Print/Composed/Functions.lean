import Erasure.Print.Expression
import Erasure.Proofs.Print.Composed.Operands

/-!
Functions, classes, literals and expressions as a whole are printed by composed steps, given that
the nodes below them are. Whether a member of a class leaves anything is settled by the place.
-/

namespace Erasure.Print

namespace Composed

theorem skipComments (offset : Nat) : Composed (skipComments offset) := .comments (.skip offset)

theorem leadingComments (offset : Nat) : Composed (leadingComments offset) :=
  .comments (.leading offset)

theorem trailingComments (offset : Nat) : Composed (trailingComments offset) :=
  .comments (.trailing offset)

theorem closingComments (offset : Nat) : Composed (closingComments offset) :=
  .comments (.closing offset)

end Composed

theorem Voiced.braced (span : Span) {m : Print Unit} (h : Composed m) : Voiced (braced span m) :=
  (write (by decide)).seq ((Composed.comments (.brace _)).seq
    ((Composed.indented (Composed.line.seq (h.seq (.closingComments _)))).seq
      (Composed.line.seq (.write _))))

namespace Composed

theorem declaredName? (name? : Option Identifier) (isExported : Bool) :
    Composed (declaredName? name? isExported) :=
  .job (fun _ => .pure _) fun _ => rfl

theorem exportKeywords (ms : Modifiers) : Composed (exportKeywords ms) :=
  .target fun _ => .ite ((write _).seq (.ite (write _) unit)) unit

section
variable {print : Slot → Node → Print Bool} (hprint : ComposedNodes print)
include hprint

theorem statementList (statements : List Node) : Composed (statementList print statements) :=
  .forM statements fun n => (hprint _ n).bind fun _ => .ite line unit

theorem inlineStatements (statements : List Node) :
    Composed (inlineStatements print statements) :=
  .forM statements fun n => .tentative (hprint _ n)

theorem functionBody (n : Node) (added : List FieldAssignment) (isDerived : Bool) :
    Composed (functionBody print n added isDerived) := by
  unfold Print.functionBody
  split
  · refine .withTarget _ (.ite ?_ (Voiced.composed (.braced _ ?_)))
    · exact (write _).seq ((inlineStatements hprint _).seq ((skipComments _).seq (write _)))
    · refine (statementList hprint _).seq (.seq ?_ (statementList hprint _))
      exact .forM added fun a => (fieldAssignment hprint a).seq line
  · exact unit

end
end Composed

section
variable {print : Slot → Node → Print Bool} (hprint : ComposedNodes print)
include hprint

theorem Settled.block (n : Node) : Settled (block print n) := by
  unfold Print.block
  split
  · refine Voiced.settled (.inScopeOf _ (.ite ?_ (.braced _ (.withTarget _ ?_))))
    · exact .after (.skipComments _) fun _ => .write (by decide)
    · exact .statementList hprint _
  · exact nothing

theorem Composed.parameter (n : Node) : Composed (parameter print n) := by
  unfold Print.parameter
  exact .when (write _) ((binding hprint _).seq (initializer hprint _))

theorem Voiced.parameters (ns : List Node) : Voiced (parameters print ns) :=
  (write (by decide)).seq
    ((Composed.commaSeparated _ fun n => .parameter hprint n).seq (.write _))

theorem Voiced.signatureAndBody (n body : Node) (added : List FieldAssignment)
    (isDerived : Bool) : Voiced (signatureAndBody print n body added isDerived) :=
  .inScopeOf _ ((parameters hprint _).seq
    (Composed.space.seq (.functionBody hprint body added isDerived)))

theorem Voiced.function {n body : Node} (h : n.func.body = some body) (name? : Option String) :
    Voiced (function print n name?) := by
  unfold Print.function
  dsimp only
  rw [h]
  refine when (.write _) (seq (write (by decide)) (.when (.write _) (Composed.space.seq ?_)))
  refine .seq (.option name? fun name => .write name) ?_
  exact (signatureAndBody hprint _ _ _ _).composed

theorem Composed.function (n : Node) (name? : Option String) :
    Composed (function print n name?) := by
  cases h : n.func.body with
  | none =>
      unfold Print.function
      dsimp only
      rw [h]
      exact unit
  | some body => exact (Voiced.function hprint h name?).composed

theorem Voiced.method (keyword? : Option String) (key : Node) {n body : Node}
    (h : n.func.body = some body) : Voiced (method print keyword? key n) := by
  unfold Print.method
  dsimp only
  rw [h]
  refine when (.write _) (after ?_ fun _ => when (.write _) ?_)
  · exact .option keyword? fun keyword => (Composed.write keyword).seq .space
  · exact after (.propertyKey hprint key) fun _ => signatureAndBody hprint _ _ _ _

theorem Composed.method (keyword? : Option String) (key n : Node) :
    Composed (method print keyword? key n) := by
  cases h : n.func.body with
  | none =>
      unfold Print.method
      dsimp only
      rw [h]
      exact unit
  | some body => exact (Voiced.method hprint keyword? key h).composed

theorem Composed.functionExpression (name? : Option Identifier) (n : Node) :
    Composed (functionExpression print name? n) :=
  file (fun _ => function hprint n _) fun _ => rfl

omit hprint in
/-- A function without a body, or from elsewhere, leaves nothing. -/
theorem functionDeclaration_erased {ms : Modifiers} {n : Node}
    (h : (n.func.body.isSome && !ms.isAmbient) = false) (name? : Option Identifier) :
    functionDeclaration print ms name? n = Pure.pure () := by
  refine if_pos ?_
  cases hbody : n.func.body with
  | none => rfl
  | some body =>
      rw [hbody] at h
      simpa using h

theorem Voiced.functionDeclaration {ms : Modifiers} {n : Node}
    (h : (n.func.body.isSome && !ms.isAmbient) = true) (name? : Option Identifier) :
    Voiced (functionDeclaration print ms name? n) := by
  obtain ⟨hbody, hambient⟩ := Bool.and_eq_true_iff.mp h
  obtain ⟨body, hbody⟩ := Option.isSome_iff_exists.mp hbody
  unfold Print.functionDeclaration
  rw [hbody, (Bool.not_eq_true' _).mp hambient]
  refine after (.exportKeywords ms) fun _ => after (.declaredName? name? _) fun name? => ?_
  refine (Voiced.function hprint hbody name?).seq (.target fun t => ?_)
  split
  · exact .ite (Composed.line.seq (.write _)) .unit
  · exact .unit

theorem Settled.functionDeclaration (ms : Modifiers) (name? : Option Identifier) (n : Node) :
    Settled (functionDeclaration print ms name? n) := by
  cases h : n.func.body.isSome && !ms.isAmbient with
  | true => exact (Voiced.functionDeclaration hprint h name?).settled
  | false =>
      rw [functionDeclaration_erased h]
      exact nothing

theorem Composed.arrowBody (body? : Option Node) :
    Composed (do
      if let some body := body? then
        if body.form.isBlock then Print.functionBody print body [] false
        else if body.firstPrinted.form.isObject then
          Print.write "("
          Print.value print body
          Print.write ")"
        else Print.value print body) := by
  cases body? with
  | some body =>
      refine .ite (functionBody hprint _ _ _) (.ite ?_ (value hprint _))
      exact (write _).seq ((value hprint _).seq (write _))
  | none => exact unit

theorem Composed.arrowFunction (n : Node) (f : FunctionLike) (isBare : Bool) :
    Composed (arrowFunction print n f isBare) := by
  have hparameters := (Voiced.parameters hprint f.parameters).composed
  have hbody := Composed.arrowBody hprint f.body
  refine .inScopeOf _ (.withTarget _ (.when (write _) ?_))
  cases f.parameters.filter fun _ => isBare with
  | nil => exact hparameters.seq ((write _).seq hbody)
  | cons p ps =>
      cases ps with
      | nil => exact (binding hprint _).seq ((write _).seq hbody)
      | cons => exact hparameters.seq ((write _).seq hbody)

omit hprint in
theorem Composed.elements {step : Node → Bool → Print Unit}
    (h : ∀ n isLast, Composed (step n isLast)) (gap : String) (isBroken : Bool)
    (breaks : List Bool) (ns : List Node) : Composed (elements step gap isBroken breaks ns) := by
  induction ns generalizing gap isBroken breaks with
  | nil => exact pure isBroken
  | cons n ns ih =>
      have hbroken : Composed (do
          Print.line
          step n ns.isEmpty
          Print.elements step " " true breaks.tail ns) :=
        line.seq ((h n _).seq (ih _ _ _))
      refine ite (ite hbroken (.indented hbroken)) ?_
      exact (write gap).seq ((h n _).seq (ih _ _ _))

omit hprint in
theorem Composed.bracketed (opening closing gap : String) (layout : ListLayout)
    {step : Node → Bool → Print Unit} (h : ∀ n isLast, Composed (step n isLast))
    (ns : List Node) : Composed (bracketed opening closing gap layout step ns) :=
  (write opening).seq ((elements h gap false _ ns).bind fun _ =>
    ite (line.seq (write closing)) ((write gap).seq (write closing)))

theorem Composed.arrayLiteral (layout : ListLayout) (ns : List Node) :
    Composed (arrayLiteral print layout ns) :=
  ite (write _) (bracketed _ _ _ layout
    (fun n _ => (operand hprint _ n).seq (ite (write _) unit)) ns)

theorem Composed.shorthandProperty (name : Identifier) (initial? : Option Node) :
    Composed (shorthandProperty print name initial?) := by
  refine (identifier name).seq (ask (fun p => .seq ?_ (initializer hprint initial?)) fun _ => rfl)
  exact option _ fun text => write _

theorem Composed.objectElement (n : Node) : Composed (objectElement print n) := by
  unfold Print.objectElement
  split
  · exact (propertyKey hprint _).seq ((write _).seq (value hprint _))
  · exact shorthandProperty hprint _ _
  · exact spread hprint _
  · exact method hprint _ _ _
  · exact method hprint _ _ _
  · exact method hprint _ _ _
  · exact unit

theorem Composed.objectLiteral (layout : ListLayout) (ns : List Node) :
    Composed (objectLiteral print layout ns) := by
  refine ite (write _) (bracketed _ _ _ layout (fun n isLast => ?_) ns)
  refine (leadingComments _).seq ((objectElement hprint n).seq (.when (write _) ?_))
  exact (skipComments _).seq (trailingComments _)

theorem Composed.decorator (n : Node) : Composed (decorator print n) := by
  unfold Print.decorator
  split
  · exact (write _).seq (operand hprint _ _)
  · exact unit

theorem Composed.memberHead (m : ClassMember) : Composed (memberHead print m) :=
  (forM _ fun d => (decorator hprint d).seq line).seq (ite (write _) unit)

theorem Settled.fieldMember (plan : FieldPlan) (m : ClassMember) (key : Node)
    (initial? : Option Node) : Settled (fieldMember print plan m key initial?) := by
  refine ite (Voiced.after (.memberHead hprint m) fun _ => .when (.write _) ?_).settled nothing
  exact .after (.propertyKey hprint key) fun _ =>
    .after (.initializer hprint initial?) fun _ => .write (by decide)

theorem Voiced.methodMember (m : ClassMember) (keyword? : Option String) (key : Node)
    {func body : Node} (h : func.func.body = some body) :
    Voiced (methodMember print m keyword? key func) :=
  after (.memberHead hprint m) fun _ => method hprint keyword? key h

theorem Settled.constructorMember (c : ClassLike) (plan : FieldPlan) (m : ClassMember)
    (func : Node) : Settled (constructorMember print c plan m func) := by
  unfold Print.constructorMember
  split
  · refine (Voiced.after (.memberHead hprint m) fun _ => .seq (.write (by decide)) ?_).settled
    exact (Voiced.signatureAndBody hprint _ _ _ _).composed
  · exact nothing

/-- A member that is not erased has a body. -/
theorem Settled.methodMember (m : ClassMember) (keyword? : Option String) (key func : Node)
    (h : func.func.body.isNone = false) : Settled (methodMember print m keyword? key func) := by
  cases hbody : func.func.body with
  | none => simp [hbody] at h
  | some body => exact (Voiced.methodMember hprint m keyword? key hbody).settled

theorem Settled.classMember (c : ClassLike) (plan : FieldPlan) (m : ClassMember) :
    Settled (classMember print c plan m) := by
  unfold Print.classMember
  cases herased : m.isErased with
  | true => exact nothing
  | false =>
      refine ite nothing ?_
      unfold ClassMember.isErased at herased
      split
      · exact fieldMember hprint plan m _ _
      · rename_i hform
        exact methodMember hprint m _ _ _ (by rwa [hform] at herased)
      · rename_i hform
        exact methodMember hprint m _ _ _ (by rwa [hform] at herased)
      · rename_i hform
        exact methodMember hprint m _ _ _ (by rwa [hform] at herased)
      · exact constructorMember hprint c plan m _
      · refine (Voiced.seq (.write (by decide)) ?_).settled
        exact (Settled.block hprint _).composed
      · exact (Voiced.write (by decide)).settled
      · exact nothing

theorem Composed.addedConstructor (c : ClassLike) (plan : FieldPlan) :
    Composed (addedConstructor print c plan) := by
  have hfields : Composed (plan.assignments.forM fun a => do
      Print.fieldAssignment print a
      Print.line) := forM _ fun a => (fieldAssignment hprint a).seq line
  refine (write _).seq (seq (indented (line.seq ?_)) ((write _).seq line))
  exact ite ((write _).seq (line.seq hfields)) hfields

theorem Composed.classMembers (c : ClassLike) (plan : FieldPlan) :
    Composed (classMembers print c plan) := by
  have hmembers : Composed ((c.members.filterMap ClassMember.ofNode?).forM fun m => do
      if ← Print.commented m.node.span (Print.classMember print c plan m) then Print.line) :=
    forM _ fun m => ((Settled.classMember hprint c plan m).commented _).bind fun _ => ite line unit
  refine seq ?_ (.when (addedConstructor hprint c plan) hmembers)
  exact forM _ fun name => (identifier name).seq ((write _).seq line)

theorem Composed.extendsClause (c : ClassLike) : Composed (extendsClause print c) := by
  refine option _ fun base => ?_
  split
  · exact (write _).seq (operand hprint _ _)
  · exact unit

theorem Voiced.classBody (n : Node) (name? : Option String) (hoistsStatics : Bool) :
    Voiced (classBody print n name? hoistsStatics) := by
  refine options fun o => seq (write (by decide)) ?_
  refine .seq (.option name? fun name => .write _) ((Composed.extendsClause hprint _).seq ?_)
  refine (Composed.write _).seq (.seq ?_ (Composed.line.seq (.write _)))
  refine .inScopeOf _ (.withTarget _ (.indented (Composed.line.seq ?_)))
  exact (Composed.classMembers hprint _ _).seq (.closingComments _)

theorem Composed.classExpression (n : Node) : Composed (classExpression print n) := by
  refine seq (forM _ fun d => (decorator hprint d).seq space) (file (fun f => ?_) fun _ => rfl)
  exact (Voiced.classBody hprint n _ _).composed

theorem Composed.staticAssignments (name : String) (c : ClassLike) :
    Composed (staticAssignments print name c) :=
  forM _ fun _ => line.seq (memberAssignment hprint name _ _)

theorem Voiced.classDeclaration {n : Node} (h : n.classLike.modifiers.isAmbient = false) :
    Voiced (classDeclaration print n) := by
  unfold Print.classDeclaration
  dsimp only
  rw [h]
  refine after (.forM _ fun d => (Composed.decorator hprint d).seq .line) fun _ => ?_
  refine after (.exportKeywords _) fun _ => after (.declaredName? _ _) fun name? => ?_
  refine (Voiced.classBody hprint n _ _).seq ?_
  cases name? with
  | none => exact .unit
  | some name =>
      have hexport : Composed (do
          (classExport? (← Print.target) n.classLike.modifiers name).forM fun text => do
            Print.line
            Print.write text) :=
        .target fun t => .option _ fun text => Composed.line.seq (.write text)
      refine .options fun o => ?_
      exact .when (.staticAssignments hprint name _) hexport

theorem Settled.classDeclaration (n : Node) : Settled (classDeclaration print n) := by
  cases h : n.classLike.modifiers.isAmbient with
  | true =>
      rw [show Print.classDeclaration print n = Pure.pure () from if_pos h]
      exact nothing
  | false => exact (Voiced.classDeclaration hprint h).settled

theorem Composed.expressionForm (n : Node) : Composed (expressionForm print n) := by
  unfold Print.expressionForm
  split
  · exact reference _ _
  iterate 12 exact write _
  · exact template hprint _ _
  · exact arrayLiteral hprint _ _
  · exact objectLiteral hprint _ _
  · exact functionExpression hprint _ _
  · exact arrowFunction hprint _ _ _
  · exact classExpression hprint _
  · exact (write _).seq ((expression hprint _).seq (write _))
  · exact propertyAccess hprint _ _ _ _
  · exact elementAccess hprint _ _ _
  · exact call hprint _ _ _
  · exact newCall hprint _ _
  · exact taggedTemplate hprint _ _
  · exact prefixOperator hprint _ _
  · exact (operand hprint _ _).seq (write _)
  · exact binary hprint _ _ _ _ _
  · exact conditional hprint _ _ _ _
  iterate 4 exact keywordOperator hprint _ _
  · exact yieldOperator hprint _ _
  · exact spread hprint _
  · exact unit

theorem Composed.operandForm (required : Precedence) (besideCoalesce : Bool) (n : Node) :
    Composed (operandForm print required besideCoalesce n) := by
  refine ask (fun p => .when (write _) ?_) fun p => ?_
  · cases p.constant? n.erased with
    | none => exact (expressionForm hprint n.erased).seq (ite (write _) unit)
    | some text => exact (constant n.erased text).seq (ite (write _) unit)
  · simp only [PrintPlace.constant?_uncommented]

end
end Erasure.Print
