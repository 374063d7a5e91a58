import Erasure.Proofs.Parse.Spans.Functions

/-!
The spans of types.
-/

namespace Erasure

theorem FunctionLike.parameters_subset (f : FunctionLike) : f.parameters ⊆ f.children := fun n => by
  simp +contextual [FunctionLike.children]

theorem FunctionLike.returnType_subset (f : FunctionLike) : f.returnType.toList ⊆ f.children :=
  fun n => by simp +contextual [FunctionLike.children]

namespace Parse

variable {g : Grammar} [hg : Spanning g] {start : Nat} {passed : Bool} {held : List Node}

instance : Spans start false [] (functionType g) := by
  unfold functionType
  refine .pos fun start => .step fun isAbstract => .step fun isConstructor =>
    .take fun typeParameters => .draw fun ps => .step fun _ => .node fun returnType => ?_
  cases isConstructor
  · exact .finish (typeParameters.getD [] ++ ps ++ [returnType] ++ [])
  · exact .finish (typeParameters.getD [] ++ ps ++ [returnType] ++ [])

instance : Spans start false [] (signature g) := by
  unfold signature
  refine .take fun typeParameters => .take fun ps => .take fun returnType => .pure ?_
  simp [FunctionLike.children]

instance : Moves (signature g) := by
  have : Proceeds (typeParameters? g) := proceeds g
  have : Proceeds (returnType? g) := proceeds g
  unfold signature
  infer_instance

instance : Spans start false [] (indexParameter g) := by
  unfold indexParameter
  refine .pos fun start => .step fun ms => .step fun isRest => .take fun name =>
    .behind name.toBinding (.step fun isOptional => .take fun type => ?_)
  exact .finish ([] ++ [name.toBinding] ++ type.toList ++ [])

instance : Spans start false [] (indexParameterStep g) := by
  unfold indexParameterStep
  exact .step fun _ => .ite (fun _ => .pure) fun _ => .node fun p => .step fun _ => .pure

instance : Spans start false [] (indexSignature g) := by
  unfold indexSignature
  exact .step fun _ => .take fun ps => .step fun _ => .take fun type => .pure

instance : Moves (indexSignature g) := by
  have : Proceeds (indexParameterStep g) := proceeds g
  have : Proceeds (typeClause? g) := proceeds g
  unfold indexSignature
  infer_instance

/-- An accessor keeps only a part of its signature. -/
theorem accessorSignature_spans (ms : Modifiers) :
    Spans start passed [] (accessorSignature g start ms) := by
  unfold accessorSignature
  refine .step fun isGet => .move fun _ => .node fun name => .take fun sig => .step fun _ => ?_
  cases isGet
  · exact .finish (name :: sig.parameters) (List.cons_subset_cons name sig.parameters_subset)
  · exact .finish (name :: sig.returnType.toList) (List.cons_subset_cons name sig.returnType_subset)

theorem signatureRest_spans (name : Node) (isOptional : Bool) :
    Spans start true [name] (signatureRest g name isOptional) := by
  unfold signatureRest
  refine .step fun _ => .ite (fun _ => ?_) fun _ => ?_
  · exact .take fun sig => .form (name :: sig.children)
  · exact .take fun type => .form (name :: type.toList)

theorem namedSignature_spans (ms : Modifiers) :
    Spans start passed [] (namedSignature g start ms) := by
  unfold namedSignature
  exact .node fun name => .step fun isOptional => .bind (signatureRest_spans name isOptional)
    fun element => .step fun _ => .finish element.directChildren

instance : Spans start false [] (typeMember g) := by
  unfold typeMember
  refine .pos fun start => .step fun _ => .ite (fun _ => ?_) fun _ => .step fun _ =>
    .ite (fun _ => ?_) fun _ => .step fun ms => .step fun _ => .ite (fun _ => ?_) fun _ => ?_
  · exact .draw fun sig => .step fun _ => .finish sig.children
  · exact .step fun _ => .draw fun sig => .step fun _ => .finish sig.children
  · exact accessorSignature_spans ms
  · refine .step fun _ => .ite (fun _ => ?_) fun _ => namedSignature_spans ms
    exact .draw fun ⟨ps, type⟩ => .step fun _ => .finish (ps ++ type.toList)

theorem typeMemberStep_spans (x : List Node × Bool) :
    Spans start passed (nodes x) (typeMemberStep g x) := by
  obtain ⟨rev, inError⟩ := x
  unfold typeMemberStep
  refine .step fun _ => .ite (fun _ => .pure) fun _ => .step fun _ => .ite (fun _ => ?_) fun _ => ?_
  · refine .step fun before => .take fun m => .step fun _ => .ite (fun _ => ?_) fun _ => .pure
    exact .step fun _ => .pure
  · exact .ite (fun _ => .error) fun _ => .step fun _ => .pure

instance : Spans start false [] (typeMembers g) := by
  unfold typeMembers
  exact .step fun _ => .ite (fun _ => .pure) fun _ =>
    .bind (.loop (by simp) typeMemberStep_spans) fun ⟨rev, _⟩ => .step fun _ => .pure

instance : Moves (typeMembers g) := by
  have : Proceeds (loop ([], false) (typeMemberStep g)) := proceeds g
  unfold typeMembers
  infer_instance

instance : Spans start false [] (mappedType g) := by
  unfold mappedType
  refine .pos fun start => .move fun _ => .step fun readonlyToken => .step fun _ => ?_
  show Spans start true [] ((do
      let keyStart ← pos
      let name ← identifier
      require .inKw
      let bound ← allowConditionalType (g .type)
      finish keyStart (.typeParameter {} name (some bound) none)) >>= fun key => do
        let nameType ← typeAfter? g .asKw
        require .closeBracket
        let questionToken ← signedToken? .question
        let type ← typeClause? g
        mappedTypeEnd
        require .closeBrace
        finish start (.mappedType readonlyToken key nameType questionToken type))
  refine .grow (.pos fun keyStart => .move fun name => .step fun _ => .node fun bound =>
    .finish [bound]) fun key => ?_
  refine .take fun nameType => .step fun _ => .step fun questionToken => .take fun type =>
    .step fun _ => .step fun _ => ?_
  exact .finish (key :: nameType.toList ++ type.toList)

instance : Spans start false [] (tupleElement g) := by
  unfold tupleElement
  refine .pos fun start => .step fun _ => .ite (fun _ => ?_) fun _ => .step fun _ => .ite (fun _ =>
    ?_)
    fun _ => ?_
  · exact .step fun isRest => .step fun name => .step fun isOptional => .step fun _ =>
      .node fun type => .finish [type]
  · exact .node fun type => .finish [type]
  · exact .node fun type => .step fun _ => .ite (fun _ => .finish [type]) fun _ => .pure

instance : Spans start false [] (tupleStep g) := by
  unfold tupleStep
  refine .step fun _ => .ite (fun _ => .pure) fun _ => .step fun _ => .ite (fun _ => .error)
    fun _ => ?_
  refine .step fun start => .node fun element => .step fun _ => .ite (fun _ => .pure) fun _ => ?_
  refine .step fun _ => .ite (fun _ => .pure) fun _ => .step fun _ => .step fun _ => ?_
  exact .ite (fun _ => .step fun _ => .step fun _ => .pure) fun _ => .step fun _ => .pure

instance : Spans start false [] (tupleType g) := by
  unfold tupleType
  exact .pos fun start => .move fun _ => .take fun elements => .step fun _ => .finish elements

theorem importType_spans (isTypeof : Bool) :
    Spans start passed [] (importType g start isTypeof) := by
  unfold importType
  refine .step fun _ => .step fun _ => .take fun argument => .behind argument.toNode ?_
  refine .step fun _ => .step fun qualifier => .take fun typeArguments => ?_
  exact .finish ([argument.toNode] ++ typeArguments.getD [])

instance : Spans start false [] (typeTemplateStep g) := by
  unfold typeTemplateStep
  refine .pos fun start => .node fun type => .step fun ⟨literal, isTail⟩ => ?_
  exact .grow (.finish [type]) fun _ => .pure

instance : Spans start false [] (templateLiteralType g) := by
  unfold templateLiteralType
  exact .pos fun start => .step fun head => .move fun _ => .take fun spans => .finish spans

theorem typeQuery_spans : Spans start passed [] (typeQuery g start) := by
  unfold typeQuery
  refine .move fun _ => .step fun _ => .ite (fun _ => importType_spans true) fun _ => ?_
  exact .step fun name => .take fun typeArguments => .finish (typeArguments.getD [])

instance : Spans start false [] (typeReference g) := by
  unfold typeReference
  exact .pos fun start => .move fun name => .take fun typeArguments =>
    .finish (typeArguments.getD [])

theorem thisType_spans : Spans start passed [] (thisType g start) := by
  unfold thisType
  refine .move fun advanced => .step fun isPredicate => .step fun onNewLine => ?_
  refine .ite (fun _ => ?_) fun _ => .finish []
  exact .step fun id => .step fun advanced => .node fun type => .finish [type]

theorem negativeLiteralType_spans : Spans start passed [] (negativeLiteralType g start) := by
  unfold negativeLiteralType
  exact .move fun _ => .node fun operand => .grow (.finish [operand]) fun literal =>
    .finish [literal]

theorem keywordType_spans : Spans start passed [] (keywordType start) := by
  unfold keywordType
  exact .step fun _ => .move fun _ => .finish []

instance : Spans start false [] (namedType g) := by
  unfold namedType
  exact .step fun _ => .step fun _ => .ite (fun _ => inferInstance) fun _ => .error

instance : Spans start false [] (primaryType g) := by
  unfold primaryType
  refine .pos fun start => .step fun k => ?_
  split
  -- The words that name types, which can also start longer names.
  iterate 10
    exact .step fun _ => .ite (fun _ => inferInstance) fun _ => keywordType_spans
  iterate 2
    exact keywordType_spans
  · exact thisType_spans
  iterate 6
    exact .node fun literal => .finish [literal]
  · exact .step fun _ => .ite (fun _ => negativeLiteralType_spans) fun _ => inferInstance
  · infer_instance
  · exact typeQuery_spans
  · exact importType_spans false
  · exact .step fun _ => .ite (fun _ => inferInstance) fun _ => .draw fun members => .finish members
  · infer_instance
  · exact .move fun _ => .node fun type => .step fun _ => .finish [type]
  · infer_instance

theorem postfixTypeStep_spans (type : Node) :
    Spans start true [type] (postfixTypeStep g start type) := by
  unfold postfixTypeStep
  refine .step fun _ => .step fun _ => .ite (fun _ => .pure) fun _ => .step fun _ => .step fun _ =>
    ?_
  refine .ite (fun _ => .grow (.finish [type]) fun _ => .pure) fun _ => ?_
  exact .node fun index => .step fun _ => .grow (.finish [type, index]) fun _ => .pure

instance : Spans start false [] (postfixType g) := by
  unfold postfixType
  exact .pos fun start => .node fun first => .loop (by simp) postfixTypeStep_spans

instance : Spans start false [] (inferBound? g) := by
  have hread : Spans start false [] (do
      if !(← accept .extendsKw) then return none
      let bound ← disallowConditionalType (g .type)
      if (← context).noConditionalType || !(← isToken .question) then return some bound
      return none) := by
    refine .step fun _ => .ite (fun _ => .pure) fun _ => .node fun bound => .step fun _ => ?_
    exact .step fun _ => .ite (fun _ => .pure) fun _ => .pure
  exact inferInstanceAs (Spans start false [] (attempt _))

instance : Spans start false [] (typeOperator g) := by
  unfold typeOperator
  refine .pos fun start => .step fun k => ?_
  split
  iterate 3
    exact .step fun _ => .move fun _ => .node fun type => .finish [type]
  · refine .move fun _ => ?_
    show Spans start true [] ((do
      let nameStart ← pos
      let name ← identifier
      let bound ← inferBound? g
      finish nameStart (.typeParameter {} name bound none)) >>= fun variable_ =>
        finish start (.inferType variable_))
    refine .grow (.pos fun nameStart => .move fun name => .take fun bound =>
      .finish (bound.toList ++ [])) fun variable_ => ?_
    exact .finish [variable_]
  · infer_instance

section
variable {operand : Parse Node} [Spans start false [] operand]

instance : Spans start false [] (typeOperand g operand) := by
  have : Proceeds (isFunctionTypeStart g) := proceeds g
  unfold typeOperand
  exact .step fun _ => .ite (fun _ => inferInstance) fun _ => inferInstance

instance (operator : TokenKind) : Spans start false [] (operandStep g operator operand) := by
  unfold operandStep
  exact .step fun _ => .ite (fun _ => .node fun _ => .pure) fun _ => .pure

end

theorem operatorType_spans {operand : Parse Node} {operator : TokenKind}
    (hoperator : operator ≠ .endOfFile)
      (hoperand : ∀ start, Spans start false [] operand) {form : List Node → Form}
    (hparts : ∀ types, (form types).pieces = types := by exact fun _ => rfl)
    (hliteral : ∀ types, (form types).literal? = none := by exact fun _ => rfl)
    (hstatements : ∀ types, (form types).statements = [] := by exact fun _ => rfl) :
    Spans start false [] (operatorType g operator form operand) := by
  have := (hoperand 0).proceeds
  have := gathers_operandStep hoperator (.same this : Alike g g operand operand)
  unfold operatorType
  refine .pos fun start => .step fun hasLeading => .node fun first => .step fun _ =>
    .ite (fun _ => .pure) fun _ => .take fun rest => ?_
  exact .finish (first :: rest) (by simp) (hparts _) (hliteral _) (hstatements _)

instance : Spans start false [] (intersectionType g) :=
  operatorType_spans (by decide) fun _ => inferInstance

instance : Spans start false [] (unionType g) :=
  operatorType_spans (by decide) fun _ => inferInstance

theorem conditionalTypeRest_spans (checkType : Node) :
    Spans start true [checkType] (conditionalTypeRest g start checkType) := by
  unfold conditionalTypeRest
  refine .node fun extendsType => .step fun _ => .node fun trueType => .step fun _ =>
    .node fun falseType => ?_
  exact .finish [checkType, extendsType, trueType, falseType]

instance : Spans start false [] (typeInner g) := by
  have : Proceeds (isFunctionTypeStart g) := proceeds g
  unfold typeInner
  refine .step fun _ => .ite (fun _ => .error) fun _ => .step fun _ => .ite (fun _ => inferInstance)
    fun _ => .pos fun start => .node fun checkType => .step fun _ => .step fun _ => ?_
  refine .ite (fun _ => .pure) fun _ => .step fun _ => ?_
  exact .ite (fun _ => conditionalTypeRest_spans checkType) fun _ => .pure

instance : Spans start false [] (type g) := inferInstanceAs (Spans start false [] (nested _ _))

end Parse
end Erasure
