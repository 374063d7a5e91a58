import Erasure.Proofs.Parse.Numbering.Functions

/-!
The numbers of types.
-/

namespace Erasure.Parse

variable {g : Grammar} [hg : Numbering g]

instance : Draws [] (functionType g) := by
  unfold functionType
  refine .step fun start => .step fun isAbstract => .step fun isConstructor =>
    .first fun typeParameters => .take fun ps => .step fun _ => .take fun returnType => ?_
  cases isConstructor <;> exact .finish fun _ =>
    by simp [Form.directChildren, FunctionLike.children]

instance : Draws [] (signature g) := by
  unfold signature
  refine .first fun typeParameters => .take fun ps => .take fun returnType => .pure fun _ => ?_
  simp [FunctionLike.children]

instance : Draws [] (indexParameter g) := by
  unfold indexParameter
  refine .step fun start => .step fun ms => .step fun isRest => .first fun name =>
    .step fun isOptional => .take fun type => .finish fun _ => ?_
  simp [Form.directChildren, Parameter.children, marks_toBinding]

instance : Draws [] (indexParameterStep g) := by
  unfold indexParameterStep
  refine .step fun _ => .ite (.pure fun _ => by simp) ?_
  exact .first fun p => .step fun _ => .pure fun _ => by simp

instance : Draws [] (indexSignature g) := by
  unfold indexSignature
  refine .step fun _ => .first fun ps => .step fun _ => .take fun type => .pure fun _ => ?_
  simp

theorem count_returnType (f : FunctionLike) (i : Mark) :
    (marks f.returnType).count i ≤ (marks f).count i := by
  simp [FunctionLike.children]
  omega

theorem count_parameters (f : FunctionLike) (i : Mark) :
    (marks f.parameters).count i ≤ (marks f).count i := by
  simp [FunctionLike.children]
  omega

/-- An accessor keeps only a part of its signature. -/
instance (start : Nat) (ms : Modifiers) : Draws [] (accessorSignature g start ms) := by
  unfold accessorSignature
  refine .step fun isGet => .step fun _ => .first fun name => .take fun sig => .step fun _ =>
    .finish fun i => ?_
  have htype := count_returnType sig i
  have hparameters := count_parameters sig i
  cases isGet <;> simp [Form.directChildren] at htype hparameters ⊢ <;> omega

theorem signatureRest_draws (name : Node) (isOptional : Bool) :
    Draws (marks name) (signatureRest g name isOptional) := by
  unfold signatureRest
  refine .step fun _ => .ite ?_ ?_
  · exact .take fun sig => .pure fun _ => by simp [Form.directChildren]
  · exact .take fun type => .pure fun _ => by simp [Form.directChildren]

instance (start : Nat) (ms : Modifiers) : Draws [] (namedSignature g start ms) := by
  unfold namedSignature
  exact .first fun name => .step fun isOptional => .spend (signatureRest_draws name isOptional)
    fun element => .step fun _ => .finish fun _ => by simp

instance : Draws [] (typeMember g) := by
  unfold typeMember
  refine .step fun start => .step fun _ => .ite ?_ (.step fun _ => .ite ?_ (.step fun ms => ?_))
  · exact .first fun sig => .step fun _ => .finish fun _ => by simp [Form.directChildren]
  · refine .step fun _ => .first fun sig => .step fun _ => .finish fun _ => ?_
    simp [Form.directChildren]
  · refine .step fun _ => .ite inferInstance (.step fun _ => .ite ?_ inferInstance)
    refine .first fun ⟨ps, type⟩ => .step fun _ => .finish fun _ => ?_
    simp [Form.directChildren]

theorem typeMemberStep_draws (state : List Node × Bool) :
    Draws (marks state) (typeMemberStep g state) := by
  obtain ⟨rev, inError⟩ := state
  have hkeep (m : Node) (i : Mark) : (marks (m :: rev, false)).count i ≤
      (marks (rev, inError) ++ marks m).count i := by
    simp
    omega
  unfold typeMemberStep
  refine .step fun _ => .ite (.pure fun _ => by simp) (.step fun _ => .ite ?_ ?_)
  · refine .step fun before => .take fun m => .step fun _ => .ite ?_ (.pure (hkeep m))
    exact .step fun _ => .pure (hkeep m)
  · have hpass : Draws (marks (rev, inError)) (do
        advance
        return ForInStep.yield (rev, true)) :=
      .step fun _ => .pure fun _ => by simp
    exact .ite (.step fun _ => hpass) hpass

instance : Draws [] (typeMembers g) := by
  unfold typeMembers
  refine .step fun _ => .ite (.pure fun _ => by simp) ?_
  refine .spend (.loop (fun _ => by simp) typeMemberStep_draws) fun ⟨rev, _⟩ => .step fun _ => ?_
  exact .pure fun _ => by simp

instance : Draws [] (mappedType g) := by
  unfold mappedType
  refine .step fun start => .step fun _ => .step fun readonlyToken => .step fun _ =>
    .step fun keyStart =>
    .first fun name => .step fun _ => .take fun bound => .spend (.finish fun _ => ?_) fun key => ?_
  · simp [Form.directChildren]
  · refine .take fun nameType => .step fun _ => .step fun questionToken => .take fun type =>
      .step fun _ => .step fun _ => .finish fun _ => ?_
    simp [Form.directChildren]

instance : Draws [] (tupleElement g) := by
  unfold tupleElement
  refine .step fun start => .step fun _ => .ite ?_ (.step fun _ => .ite ?_ ?_)
  · refine .step fun isRest => .first fun name => .step fun isOptional => .step fun _ =>
      .take fun type => .finish fun _ => ?_
    simp [Form.directChildren]
  · exact .first fun type => .finish fun _ => by simp [Form.directChildren]
  · refine .first fun type => .step fun _ => .ite (.finish fun _ => ?_) (.pure fun _ => by simp)
    simp [Form.directChildren]

instance : Draws [] (tupleStep g) := by
  unfold tupleStep
  refine .step fun _ => .ite (.pure fun _ => by simp) (.step fun _ => .ite ?_ ?_)
  · refine .step fun _ => .step fun _ => .ite (.pure fun _ => by simp) ?_
    exact .step fun _ => .pure fun _ => by simp
  · refine .step fun start => .first fun element => .step fun _ => .ite (.pure fun _ => by simp) ?_
    refine .step fun _ => .ite (.pure fun _ => by simp) (.step fun _ => .step fun _ => ?_)
    exact .ite (.step fun _ => .step fun _ => .pure fun _ => by simp)
      (.step fun _ => .pure fun _ => by simp)

instance : Draws [] (tupleType g) := by
  unfold tupleType
  refine .step fun start => .step fun _ => .first fun elements => .step fun _ => .finish fun _ => ?_
  simp [Form.directChildren]

instance (start : Nat) (isTypeof : Bool) : Draws [] (importType g start isTypeof) := by
  unfold importType
  refine .step fun _ => .step fun _ => .first fun argument => .step fun _ => .take fun qualifier =>
    .take fun typeArguments => .finish fun _ => ?_
  simp [Form.directChildren]

instance : Draws [] (typeTemplateStep g) := by
  unfold typeTemplateStep
  refine .step fun start => .first fun type => .step fun ⟨literal, isTail⟩ => ?_
  exact .spend (.finish fun _ => by simp [Form.directChildren]) fun _ => .pure fun _ => by simp

instance : Draws [] (templateLiteralType g) := by
  unfold templateLiteralType
  refine .step fun start => .step fun head => .step fun _ => .first fun spans => .finish fun _ => ?_
  simp [Form.directChildren]

instance (start : Nat) : Draws [] (typeQuery g start) := by
  unfold typeQuery
  refine .step fun _ => .step fun _ => .ite inferInstance ?_
  refine .first fun name => .take fun typeArguments => .finish fun _ => ?_
  simp [Form.directChildren]

instance : Draws [] (typeReference g) := by
  unfold typeReference
  refine .step fun start => .first fun name => .take fun typeArguments => .finish fun _ => ?_
  simp [Form.directChildren]

instance (start : Nat) : Draws [] (thisType g start) := by
  unfold thisType
  refine .step fun _ => .step fun _ => .step fun _ =>
    .ite ?_ (.finish fun _ => by simp [Form.directChildren])
  refine .freshId fun id => .step fun _ => .take fun type => .finish fun _ => ?_
  simp [Form.directChildren]

instance (start : Nat) : Draws [] (negativeLiteralType g start) := by
  unfold negativeLiteralType
  refine .step fun _ => .first fun operand => .spend (.finish fun _ => ?_) fun literal =>
    .finish fun _ => ?_
  · simp [Form.directChildren]
  · simp [Form.directChildren]

instance (start : Nat) : Draws [] (keywordType start) := by
  unfold keywordType
  exact .step fun _ => .step fun _ => .finish fun _ => by simp [Form.directChildren]

instance : Draws [] (namedType g) := by
  unfold namedType
  exact .step fun _ => .step fun _ => .ite inferInstance (.step fun _ => inferInstance)

instance : Draws [] (primaryType g) := by
  unfold primaryType
  refine .step fun start => .step fun k => ?_
  split
  -- The words that name types, which can also start longer names.
  iterate 10
    exact .step fun _ => .ite inferInstance inferInstance
  iterate 3
    infer_instance
  iterate 6
    exact .first fun literal => .finish fun _ => by simp [Form.directChildren]
  · exact .step fun _ => .ite inferInstance inferInstance
  iterate 3
    infer_instance
  · refine .step fun _ => .ite inferInstance (.first fun members => .finish fun _ => ?_)
    simp [Form.directChildren]
  · infer_instance
  · refine .step fun _ => .first fun type => .step fun _ => .finish fun _ => ?_
    simp [Form.directChildren]
  · infer_instance

theorem postfixTypeStep_draws (start : Nat) (type : Node) :
    Draws (marks type) (postfixTypeStep g start type) := by
  unfold postfixTypeStep
  refine .step fun _ => .step fun _ =>
    .ite (.pure fun _ => by simp) (.step fun _ => .step fun _ => ?_)
  refine .ite (grow_draws (.finish fun _ => by simp [Form.directChildren])) ?_
  refine .take fun index => .step fun _ => grow_draws (.finish fun _ => ?_)
  simp [Form.directChildren]

instance : Draws [] (postfixType g) := by
  unfold postfixType
  exact .step fun start => .first fun type =>
    .loop (fun _ => Nat.le_refl _) (postfixTypeStep_draws start)

instance : Draws [] (inferBound? g) := by
  have hread : Draws [] (do
      if !(← accept .extendsKw) then return none
      let bound ← disallowConditionalType (g .type)
      if (← context).noConditionalType || !(← isToken .question) then return some bound
      return none) := by
    refine .step fun _ => .ite (.pure fun _ => by simp) (.first fun bound => .step fun _ => ?_)
    exact .step fun _ => .ite (.pure fun _ => by simp) (.pure fun _ => by simp)
  exact inferInstanceAs (Draws [] (attempt _))

instance : Draws [] (typeOperator g) := by
  unfold typeOperator
  refine .step fun start => .step fun k => ?_
  split
  iterate 3
    exact .step fun _ => .step fun _ => .first fun type => .finish fun _ => by
      simp [Form.directChildren]
  · refine .step fun _ => .step fun _ => .first fun name => .take fun bound =>
      .spend (.finish fun _ => ?_) fun variable_ => .finish fun _ => ?_
    · simp [Form.directChildren]
    · simp [Form.directChildren]
  · infer_instance

instance : Proceeds (isFunctionTypeStart g) := proceeds g

section
variable {operand : Parse Node} [Draws [] operand]

instance : Draws [] (typeOperand g operand) := by
  unfold typeOperand
  exact .step fun _ => .ite inferInstance inferInstance

instance (operator : TokenKind) : Draws [] (operandStep g operator operand) := by
  unfold operandStep
  exact .step fun _ => .ite (.first fun _ => .pure fun _ => by simp) (.pure fun _ => by simp)

theorem operatorType_draws (operator : TokenKind) {form : List Node → Form}
    (hform : ∀ types, marks (form types) = marks types)
    (hjump : ∀ types, (form types).NoJump) :
    Draws [] (operatorType g operator form operand) := by
  unfold operatorType
  refine .step fun start => .step fun hasLeading => .first fun first => .step fun _ =>
    .ite (.pure fun _ => by simp) (.take fun rest => .finish (fun _ => ?_) (hjump _))
  simp [hform]

end

instance : Draws [] (intersectionType g) :=
  operatorType_draws .ampersand (fun _ => by simp [Form.directChildren]) fun _ _ => rfl

instance : Draws [] (unionType g) :=
  operatorType_draws .bar (fun _ => by simp [Form.directChildren]) fun _ _ => rfl

theorem conditionalTypeRest_draws (start : Nat) (checkType : Node) :
    Draws (marks checkType) (conditionalTypeRest g start checkType) := by
  unfold conditionalTypeRest
  refine .take fun extendsType => .step fun _ => .take fun trueType => .step fun _ =>
    .take fun falseType => .finish fun _ => ?_
  simp [Form.directChildren]

instance : Draws [] (typeInner g) := by
  unfold typeInner
  refine .step fun _ => .ite (.step fun _ => inferInstance) (.step fun _ => .ite inferInstance ?_)
  refine .step fun start => .first fun checkType => .step fun _ => .step fun _ =>
    .ite (.pure fun _ => by simp) (.step fun _ => .ite ?_ (.pure fun _ => by simp))
  exact conditionalTypeRest_draws start checkType

instance : Draws [] (type g) := inferInstanceAs (Draws [] (nested _ _))

end Erasure.Parse
