import Erasure.Proofs.Parse.Alike.Functions

/-!
Types over two grammars, and the progress of the lists in them.
-/

namespace Erasure.Parse

set_option synthInstance.maxSize 5000

variable {g g' : Grammar} [Lawful g]

instance : Alike g g' (skipParameterStart g) (skipParameterStart g') := by
  unfold skipParameterStart
  infer_instance

instance : Alike g g' (isFunctionTypeAhead g) (isFunctionTypeAhead g') := by
  unfold isFunctionTypeAhead
  infer_instance

instance : Alike g g' (isFunctionTypeStart g) (isFunctionTypeStart g') := by
  unfold isFunctionTypeStart
  refine .bind inferInstance fun _ => ?_
  split <;> infer_instance

instance : Alike g g' (functionType g) (functionType g') := by
  unfold functionType
  infer_instance

instance : Alike g g' (signature g) (signature g') := by
  unfold signature
  infer_instance

instance : Alike g g' (indexParameter g) (indexParameter g') := by
  unfold indexParameter
  infer_instance

instance : Alike g g' (indexParameterStep g) (indexParameterStep g') := by
  unfold indexParameterStep
  infer_instance

instance : Gathers (indexParameterStep g) := by
  refine .of_leads fun n => ?_
  unfold indexParameterStep
  exact .ifAtClose (.stop nofun) (.step (proceeds g) fun _ =>
    .accept (by decide) (.rest inferInstance) (.stop nofun))

instance : Alike g g' (indexSignature g) (indexSignature g') := by
  unfold indexSignature
  infer_instance

instance (start : Nat) (ms : Modifiers) :
    Alike g g' (accessorSignature g start ms) (accessorSignature g' start ms) := by
  unfold accessorSignature
  infer_instance

instance (name : Node) (isOptional : Bool) :
    Alike g g' (signatureRest g name isOptional) (signatureRest g' name isOptional) := by
  unfold signatureRest
  infer_instance

instance (start : Nat) (ms : Modifiers) :
    Alike g g' (namedSignature g start ms) (namedSignature g' start ms) := by
  unfold namedSignature
  infer_instance

instance : Alike g g' (typeMember g) (typeMember g') := by
  unfold typeMember
  infer_instance

instance (x : List Node × Bool) : Alike g g' (typeMemberStep g x) (typeMemberStep g' x) := by
  unfold typeMemberStep
  infer_instance

instance : Advances (typeMemberStep g) := by
  refine .of_leads fun n x => ?_
  unfold typeMemberStep
  refine .ifAtClose (.stop id) (.stay fun _ => .ite (fun _ => ?_) fun _ => ?_)
  · exact .start fun start hstart => .step (proceeds g) fun _ =>
      .guard hstart (.rest inferInstance)
  · exact .ite (fun _ => .stay fun _ => .advance (.rest inferInstance))
      fun _ => .advance (.rest inferInstance)

instance : Alike g g' (typeMembers g) (typeMembers g') := by
  unfold typeMembers
  refine .bind inferInstance fun _ => ?_
  split
  · infer_instance
  · refine .bind inferInstance fun ⟨_, _⟩ => ?_
    infer_instance

instance : Alike g g' (mappedType g) (mappedType g') := by
  unfold mappedType
  infer_instance

instance : Alike g g' (tupleElement g) (tupleElement g') := by
  unfold tupleElement
  infer_instance

instance : Alike g g' (tupleStep g) (tupleStep g') := by
  unfold tupleStep
  infer_instance

instance : Gathers (tupleStep g) := by
  refine .of_leads fun n => ?_
  unfold tupleStep
  refine .ifAtClose (.stop nofun) (.stay fun _ => .ite (fun _ => ?_) fun _ => ?_)
  · exact .stay fun _ => .stay fun _ => .ite (fun _ => .stop nofun) fun _ =>
      .advance (.rest inferInstance)
  · refine .start fun start hstart => .step (proceeds g) fun _ =>
      .ifAccept (by decide) (.rest inferInstance) ?_
    refine .stay fun _ => .ite (fun _ => .stop nofun) fun _ => .step inferInstance fun _ => ?_
    exact .guard hstart (.rest inferInstance)

instance : Alike g g' (tupleType g) (tupleType g') := by
  unfold tupleType
  infer_instance

instance (start : Nat) (isTypeof : Bool) :
    Alike g g' (importType g start isTypeof) (importType g' start isTypeof) := by
  unfold importType
  infer_instance

instance : Alike g g' (typeTemplateStep g) (typeTemplateStep g') := by
  unfold typeTemplateStep
  infer_instance

instance : Gathers (typeTemplateStep g) := by
  refine .of_leads fun n => ?_
  unfold typeTemplateStep
  refine .stay fun _ => .step (proceeds g) fun _ => .bind (templateContinuation_leads n)
    fun ⟨_, _⟩ => ?_
  exact .stay fun _ => .pure fun _ ha => ha

instance : Alike g g' (templateLiteralType g) (templateLiteralType g') := by
  unfold templateLiteralType
  infer_instance

instance (start : Nat) : Alike g g' (typeQuery g start) (typeQuery g' start) := by
  unfold typeQuery
  infer_instance

instance : Alike g g' (typeReference g) (typeReference g') := by
  unfold typeReference
  infer_instance

instance (start : Nat) : Alike g g' (thisType g start) (thisType g' start) := by
  unfold thisType
  infer_instance

instance (start : Nat) :
    Alike g g' (negativeLiteralType g start) (negativeLiteralType g' start) := by
  unfold negativeLiteralType
  infer_instance

instance : Alike g g' (namedType g) (namedType g') := by
  unfold namedType
  infer_instance

instance : Alike g g' (primaryType g) (primaryType g') := by
  unfold primaryType
  refine .bind inferInstance fun _ => .bind inferInstance fun _ => ?_
  split <;> infer_instance

instance (start : Nat) (type : Node) :
    Alike g g' (postfixTypeStep g start type) (postfixTypeStep g' start type) := by
  unfold postfixTypeStep
  infer_instance

instance (start : Nat) : Advances (postfixTypeStep g start) := by
  refine .of_leads fun n type => ?_
  unfold postfixTypeStep
  refine .stay fun _ => .ask (R := fun found a => found = decide (a.token = .openBracket))
    (fun _ => rfl) fun found => .ite (fun _ => .stop id) fun h => .alive (n := n) (fun a ha => ?_)
    (.advance (.rest inferInstance))
  rintro hend
  rw [ha.2, hend] at h
  simp at h

instance : Alike g g' (postfixType g) (postfixType g') := by
  unfold postfixType
  infer_instance

instance : Alike g g' (inferBound? g) (inferBound? g') := by
  unfold inferBound?
  infer_instance

instance : Alike g g' (typeOperator g) (typeOperator g') := by
  unfold typeOperator
  refine .bind inferInstance fun _ => .bind inferInstance fun _ => ?_
  split <;> infer_instance

section
variable {operator : TokenKind} {form : List Node → Form} {operand operand' : Parse Node}

instance [Alike g g' operand operand'] :
    Alike g g' (typeOperand g operand) (typeOperand g' operand') := by
  unfold typeOperand
  infer_instance

instance [Alike g g' operand operand'] :
    Alike g g' (operandStep g operator operand) (operandStep g' operator operand') := by
  unfold operandStep
  infer_instance

theorem gathers_operandStep (hoperator : operator ≠ .endOfFile)
    (hoperand : Alike g g' operand operand') : Gathers (operandStep g operator operand) := by
  refine .of_leads fun n => ?_
  have : Proceeds operand := hoperand.proceeds
  unfold operandStep
  exact .ifAccept hoperator (.rest (proceeds g)) (.stop nofun)

theorem alike_operatorType (hoperator : operator ≠ .endOfFile)
    (hoperand : Alike g g' operand operand') :
    Alike g g' (operatorType g operator form operand) (operatorType g' operator form operand') := by
  have := gathers_operandStep hoperator hoperand
  unfold operatorType
  infer_instance

end

instance : Alike g g' (intersectionType g) (intersectionType g') :=
  alike_operatorType (by decide) inferInstance

instance : Alike g g' (unionType g) (unionType g') := alike_operatorType (by decide) inferInstance

instance (start : Nat) (checkType : Node) :
    Alike g g' (conditionalTypeRest g start checkType)
      (conditionalTypeRest g' start checkType) := by
  unfold conditionalTypeRest
  infer_instance

instance : Alike g g' (typeInner g) (typeInner g') := by
  unfold typeInner
  infer_instance

instance : Alike g g' (type g) (type g') := by
  unfold type
  infer_instance

end Erasure.Parse
