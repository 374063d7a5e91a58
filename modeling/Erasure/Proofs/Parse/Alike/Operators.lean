import Erasure.Proofs.Parse.Alike.Types

/-!
Classes and expressions over two grammars, and the progress of the lists in them.
-/

namespace Erasure.Parse

set_option synthInstance.maxSize 5000

variable {g g' : Grammar} [Lawful g]

instance (isType : Bool) : Alike g g' (heritage g isType) (heritage g' isType) := by
  unfold heritage
  infer_instance

instance (isType : Bool) : Alike g g' (heritageStep g isType) (heritageStep g' isType) := by
  unfold heritageStep
  infer_instance

instance (isType : Bool) : Gathers (heritageStep g isType) := by
  refine .of_leads fun n => ?_
  unfold heritageStep
  exact .step (proceeds g) fun _ => .accept (by decide) (.rest inferInstance) (.stop nofun)

instance (isType : Bool) : Alike g g' (heritageList g isType) (heritageList g' isType) := by
  unfold heritageList
  infer_instance

instance (x : Option Node × List Node) :
    Alike g g' (heritageClauseStep g x) (heritageClauseStep g' x) := by
  unfold heritageClauseStep
  infer_instance

instance : Advances (heritageClauseStep g) := by
  refine .of_leads fun n x => ?_
  unfold heritageClauseStep
  exact .ifAccept (by decide) (.rest (proceeds g))
    (.ifAccept (by decide) (.rest (proceeds g)) (.stop id))

instance : Alike g g' (heritageClauses g) (heritageClauses g') := by
  unfold heritageClauses
  infer_instance

instance (start : Nat) (bodyRequired : Bool) (getter setter : Node → Node → Form) :
    Alike g g' (accessor g start bodyRequired getter setter)
      (accessor g' start bodyRequired getter setter) := by
  unfold accessor
  infer_instance

instance : Alike g g' (propertyInitializer? g) (propertyInitializer? g') := by
  unfold propertyInitializer?
  infer_instance

instance (start : Nat) (ms : Modifiers) :
    Alike g g' (namedMember g start ms) (namedMember g' start ms) := by
  unfold namedMember
  infer_instance

instance (start : Nat) (ms : Modifiers) :
    Alike g g' (member? g start ms) (member? g' start ms) := by
  unfold member?
  infer_instance

instance : Alike g g' (classMember? g) (classMember? g') := by
  unfold classMember?
  refine .bind inferInstance fun _ => .bind inferInstance fun _ => ?_
  split
  · infer_instance
  · refine .bind inferInstance fun _ => .bind inferInstance fun _ => .bind inferInstance fun _ => ?_
    split
    · infer_instance
    · dsimp only
      infer_instance

instance : Alike g g' (classMemberStep g) (classMemberStep g') := by
  unfold classMemberStep
  infer_instance

instance : Gathers (classMemberStep g) := by
  refine .of_leads fun n => ?_
  unfold classMemberStep
  refine .ifAtClose (.stop nofun) (.start fun start hstart => .step (proceeds g) fun _ =>
    .stay fun _ => .ite (fun _ => .stop nofun) fun _ => ?_)
  exact .guard hstart (.rest inferInstance)

instance : Alike g g' (classMembers g) (classMembers g') := by
  unfold classMembers
  infer_instance

instance (start : Nat) (ds : List Node) (ms : Modifiers) :
    Alike g g' (classLike g start ds ms) (classLike g' start ds ms) := by
  unfold classLike
  infer_instance

instance (start : Nat) : Alike g g' (arrayLiteral g start) (arrayLiteral g' start) := by
  unfold arrayLiteral
  infer_instance

instance (start : Nat) (isAsync : Bool) :
    Alike g g' (namedProperty g start isAsync) (namedProperty g' start isAsync) := by
  unfold namedProperty
  refine .bind inferInstance fun _ => .bind inferInstance fun _ => .bind inferInstance fun name =>
    .bind inferInstance fun _ => .bind inferInstance fun _ => ?_
  split
  · infer_instance
  · refine .bind inferInstance fun _ => ?_
    split
    · split <;> infer_instance
    · infer_instance

instance : Alike g g' (objectProperty g) (objectProperty g') := by
  unfold objectProperty
  infer_instance

instance (start : Nat) : Alike g g' (objectLiteral g start) (objectLiteral g' start) := by
  unfold objectLiteral
  infer_instance

instance (start : Nat) : Alike g g' (functionExpression g start) (functionExpression g' start) := by
  unfold functionExpression
  infer_instance

instance (start : Nat) : Alike g g' (classExpression g start) (classExpression g' start) := by
  unfold classExpression
  infer_instance

instance (start : Nat) : Alike g g' (newExpression g start) (newExpression g' start) := by
  unfold newExpression
  infer_instance

instance (start : Nat) : Alike g g' (parenthesized g start) (parenthesized g' start) := by
  unfold parenthesized
  infer_instance

instance : Alike g g' (primary g) (primary g') := by
  unfold primary
  refine .bind inferInstance fun _ => .bind inferInstance fun _ => ?_
  split <;> infer_instance

instance (isAsync : Bool) : Alike g g' (arrowBody g isAsync) (arrowBody g' isAsync) := by
  unfold arrowBody
  infer_instance

instance (isCertain : Bool) :
    Alike g g' (parenthesizedArrow? g isCertain) (parenthesizedArrow? g' isCertain) := by
  unfold parenthesizedArrow?
  infer_instance

instance : Alike g g' (speculativeArrow? g) (speculativeArrow? g') := by
  unfold speculativeArrow?
  infer_instance

instance : Alike g g' (arrowFunction? g) (arrowFunction? g') := by
  unfold arrowFunction?
  refine .bind inferInstance fun _ => ?_
  split
  · infer_instance
  · refine .bind inferInstance fun evidence => ?_
    cases evidence <;> infer_instance

instance (start : Nat) (name : Node) (isAsync : Bool) :
    Alike g g' (bareArrow g start name isAsync) (bareArrow g' start name isAsync) := by
  unfold bareArrow
  infer_instance

instance : Alike g g' (asyncBareArrow? g) (asyncBareArrow? g') := by
  unfold asyncBareArrow?
  infer_instance

instance (start : Nat) (form : Node → Form) :
    Alike g g' (prefixOperation g start form) (prefixOperation g' start form) := by
  unfold prefixOperation
  infer_instance

instance (start : Nat) : Alike g g' (typeAssertion g start) (typeAssertion g' start) := by
  unfold typeAssertion
  infer_instance

instance (start : Nat) : Alike g g' (postfixOperation g start) (postfixOperation g' start) := by
  unfold postfixOperation
  infer_instance

instance : Alike g g' (unaryInner g) (unaryInner g') := by
  unfold unaryInner
  refine .bind inferInstance fun _ => .bind inferInstance fun _ => ?_
  split <;> infer_instance

instance : Alike g g' (unary g) (unary g') := by
  unfold unary
  infer_instance

instance (start : Nat) (left : Node) (operator : TokenKind) (level : Precedence) :
    Alike g g' (binaryStep g start left operator level)
      (binaryStep g' start left operator level) := by
  unfold binaryStep
  infer_instance

instance (start : Nat) (operand : Node) (operator : TokenKind) :
    Alike g g' (assertionStep g start operand operator)
      (assertionStep g' start operand operator) := by
  unfold assertionStep
  infer_instance

/-- An operator is no end of the text. -/
theorem operatorLevel_leads (n : Nat) (above : Precedence) :
    Leads (since n) (operatorLevel? above) fun level? a => level?.isSome = true → live n a := by
  unfold operatorLevel?
  refine .bind (R := fun k a => since n a ∧ a.token = k) (fun s hr hs => ?_) fun k => .stay fun _ =>
    .ite (fun _ => .pure fun _ _ => nofun) fun _ => .pure fun a ha h => .inr ⟨ha.1, ?_⟩
  · have h := Leads.keep (A := since n) (p := rescanGreater) inferInstance s hr hs
    exact ⟨h.1, h.2, rfl⟩
  · rintro hend
    rw [← ha.2, hend] at h
    cases h

instance (start : Nat) (above : Precedence) (x : Node × Nat) :
    Alike g g' (operationStep g start above x) (operationStep g' start above x) := by
  unfold operationStep
  refine .bind inferInstance fun level? => ?_
  split <;> infer_instance

instance (start : Nat) (above : Precedence) : Advances (operationStep g start above) := by
  refine .of_leads fun n x => ?_
  unfold operationStep
  refine .bind (operatorLevel_leads n above) fun level? => ?_
  split
  · exact .stop id
  · refine .weaken (C := live n)
      (.stay fun _ => .ite (fun _ => .stop id) fun _ => .stay fun _ => ?_)
      fun _ ha => ha rfl
    unfold assertionStep binaryStep
    refine .ite (fun _ => .stay fun _ => .ite (fun _ => .stop id) fun _ => ?_) fun _ => ?_
    · exact .bind (.advance (.keep (proceeds g))) fun _ => .rest inferInstance
    · exact .bind (.stay fun _ => .advance (.keep (proceeds g))) fun _ => .rest inferInstance

instance (start : Nat) (above : Precedence) (first : Node) :
    Alike g g' (binaryRest g start above first) (binaryRest g' start above first) := by
  unfold binaryRest
  refine .bind inferInstance fun ⟨_, _⟩ => ?_
  infer_instance

instance (above : Precedence) : Alike g g' (binary g above) (binary g' above) := by
  unfold binary
  infer_instance

instance (start : Nat) (condition : Node) :
    Alike g g' (conditionalRest g start condition) (conditionalRest g' start condition) := by
  unfold conditionalRest
  infer_instance

instance (start : Nat) : Alike g g' (yieldExpression g start) (yieldExpression g' start) := by
  unfold yieldExpression
  infer_instance

instance (start : Nat) (target : Node) :
    Alike g g' (assignmentRest g start target) (assignmentRest g' start target) := by
  unfold assignmentRest
  infer_instance

instance (start : Nat) (first : Node) :
    Alike g g' (operationRest g start first) (operationRest g' start first) := by
  unfold operationRest
  dsimp only
  refine .bind inferInstance fun _ => ?_
  split
  · split <;> infer_instance
  · infer_instance

instance : Alike g g' (assignmentInner g) (assignmentInner g') := by
  unfold assignmentInner
  refine .bind inferInstance fun _ => .bind inferInstance fun _ => .bind inferInstance fun _ => ?_
  split
  · infer_instance
  · refine .bind inferInstance fun arrow? => ?_
    split
    · infer_instance
    · refine .bind inferInstance fun arrow? => ?_
      split <;> infer_instance

instance : Alike g g' (assignment g) (assignment g') := by
  unfold assignment
  infer_instance

end Erasure.Parse
