import Erasure.Proofs.Parse.Chains

/-!
Statement lists, parameters and the rest of functions, and types with their members, are genuine as
long as nothing was reported.
-/

namespace Erasure.Parse

variable {P : Place → Prop} {g : Grammar} [Sound g]

theorem statementList_gives [Stable P] {isEnd : TokenKind → Bool} :
    Gives P (statementList g isEnd) (always GenuineAll) := by
  unfold statementList
  refine .collect
    (.stay fun k => .ite (fun _ => .pure fun _ _ => nofun) fun _ => .stay fun starts =>
    .ite (fun _ => ?_) fun _ => .error)
  refine .stay fun start => .bind (part .statement) fun statement => .stay fun _ =>
    .stay fun _ => ?_
  have keep (a : Place) (ha : P a ∧ statement.Genuine) :
      collected Node.Genuine (some statement, false) a := collected_some ha.2
  exact .ite (fun _ => .step fun _ => .pure keep) fun _ => .pure keep

theorem block_gives [Stable P] : Gives P (block g) (always Node.Genuine) := by
  unfold block
  refine .stay fun start => .step fun found => .ite (fun _ => ?_) fun _ => ?_
  · exact .stay fun id => .pure fun _ _ => .of_form ⟨rfl, rfl, .nil, .nil⟩
  · exact .stay fun _ => .bind statementList_gives fun statements => .step fun _ => .stay fun _ =>
      .stay fun _ => .finish fun _ ha => ⟨rfl, rfl, .nil, ha.2⟩

theorem typeParameter_gives [Stable P] : Gives P (typeParameter g) (always Node.Genuine) := by
  unfold typeParameter
  refine .stay fun start => .step fun ms => .bind identifier_gives fun name =>
    .bind typeAfter_gives fun bound => .bind typeAfter_gives fun fallback => .finish fun _ ha => ?_
  exact ⟨rfl, rfl, .one ha.1.1.2, GenuineAll.append ha.1.2 ha.2⟩

theorem angleList_gives [Stable P] {element : Parse Node}
    (h : Gives P element (always Node.Genuine)) : Gives P (angleList? element) typed := by
  unfold angleList?
  refine .step fun found => .ite (fun _ => .pure fun _ _ => .nil) fun _ =>
    .bind (.collect (R := Node.Genuine) ?_) fun elements => .step fun _ => .pure fun _ ha => ha.2
  exact .stay fun atEnd => .ite (fun _ => .pure fun _ _ => nofun) fun _ => .bind h fun n =>
    .step fun _ => .pure fun _ ha => collected_some ha.2

theorem typeParameters_gives [Stable P] : Gives P (typeParameters? g) typed :=
  angleList_gives typeParameter_gives

theorem typeArguments_gives [Stable P] : Gives P (typeArguments? g) typed :=
  angleList_gives (.allowConditionalType (part .type).genuine)

theorem typeArgumentsOnLine_gives [Stable P] : Gives P (typeArgumentsOnLine? g) typed :=
  .stay fun _ => .ite (fun _ => .pure fun _ _ => .nil) fun _ => typeArguments_gives

theorem parameter_gives [Stable P] {notes : ParameterNotes} :
    Gives P (parameter g notes) (always fun x => x.1.Genuine) := by
  unfold parameter
  refine .stay fun start => .bind decorators_gives fun ds => .stay fun isThis =>
    .ite (fun _ => ?_) fun _ => ?_
  · refine .bind identifierName_gives fun name => .bind typeClause_gives fun type =>
      .bind (.finish fun _ ha => ?_) fun n => .pure fun _ ha => ha.2
    exact ⟨rfl, rfl, .nil, ((ha.1.1.2.append (.one (genuine_toBinding ha.1.2))).append ha.2).append
      .nil⟩
  · refine .step fun ms => .stay fun restStart => .step fun isRest =>
      .bind (part (.binding _)) fun name => .stay fun question => .step fun isOptional =>
      .bind typeClause_gives fun type => .bind initializer_gives fun initializer =>
      .stay fun notes => .bind (.finish fun _ ha => ?_) fun n => .pure fun _ ha => ha.2
    exact ⟨rfl, rfl, .nil, ((ha.1.1.1.2.append (.one ha.1.1.2)).append ha.1.2).append ha.2⟩

theorem parameterStep_gives [Stable P] {x : List Node × ParameterNotes}
    (h : ∀ a, P a → GenuineAll x.1) :
    Gives P (parameterStep g x) (always fun r => GenuineAll r.value.1) := by
  obtain ⟨rev, notes⟩ := x
  unfold parameterStep
  refine .stay fun atEnd => .ite (fun _ => .pure h) fun _ => .stay fun starts =>
    .ite (fun _ => .error) fun _ => .stay fun _ => .bind parameter_gives fun read => ?_
  obtain ⟨p, notes⟩ := read
  have keep (a : Place) (ha : P a ∧ p.Genuine) : GenuineAll (p :: rev) := .cons ha.2 (h a ha.1)
  refine .step fun _ => .ite (fun _ => .pure keep) fun _ => .stay fun _ =>
    .ite (fun _ => .pure keep) fun _ => .step fun _ => .stay fun goesOn => .pure ?_
  cases goesOn <;> exact keep

theorem parameterList_gives [Stable P] : Gives P (parameterList g) (always GenuineAll) := by
  unfold parameterList
  exact .bind (.loop (I := always fun x : List Node × ParameterNotes => GenuineAll x.1)
    (fun _ _ => .nil) fun x => parameterStep_gives fun _ ha => ha.2)
    fun x => .pure fun _ ha => .reverse ha.2

theorem parameters_gives [Stable P] {isAsync isGenerator : Bool} :
    Gives P (parameters g isAsync isGenerator) (always GenuineAll) := by
  unfold parameters
  refine .step fun found => .ite (fun _ => .pure fun _ _ => .nil) fun _ => ?_
  exact .bind (.withContext _ parameterList_gives) fun ps => .step fun _ => .pure fun _ ha => ha.2

theorem typeOrPredicate_gives [Stable P] : Gives P (typeOrPredicate g) (always Node.Genuine) := by
  unfold typeOrPredicate
  refine .stay fun start => .stay fun isAsserts => .ite (fun _ => ?_) fun _ => .stay fun isIs =>
    .ite (fun _ => ?_) fun _ => (part .type).genuine
  · exact .step fun _ => .bind identifierName_gives fun name =>
      .bind (.after (part .type).genuine) fun type =>
        .finish fun _ ha => ⟨rfl, rfl, .one ha.1.2, ha.2⟩
  · exact .bind identifierName_gives fun name => .step fun _ => .bind (part .type) fun type =>
      .finish fun _ ha => ⟨rfl, rfl, .one ha.1.2, .one ha.2.1⟩

theorem returnType_gives [Stable P] :
    Gives P (returnType? g) (optional Node.Genuine) :=
  .after (.allowConditionalType typeOrPredicate_gives)

theorem functionBody_gives [Stable P] {isAsync isGenerator : Bool} :
    Gives P (functionBody g isAsync isGenerator) (always Node.Genuine) :=
  .withContext _ block_gives

theorem functionBodyOption_gives [Stable P] {isAsync isGenerator bodyRequired : Bool} :
    Gives P (functionBody? g isAsync isGenerator bodyRequired) (optional Node.Genuine) := by
  unfold functionBody?
  have body : Gives P (do return some (← functionBody g isAsync isGenerator))
      (optional Node.Genuine) :=
    .bind functionBody_gives fun body => .pure fun _ ha => optional_some ha.2
  refine .stay fun lacks => .ite (fun _ => .step fun _ => .pure fun _ _ => nofun) fun _ =>
    .stay fun _ => .stay fun _ => .ite (fun _ => .stay fun _ => body) fun _ => body

theorem functionRest_gives [Stable P] {start : Nat} {isAsync isGenerator bodyRequired : Bool} :
    Gives P (functionRest g start isAsync isGenerator bodyRequired) (always Node.Genuine) := by
  unfold functionRest
  refine .bind typeParameters_gives fun typeParameters => .bind parameters_gives fun ps =>
    .bind returnType_gives fun returnType => .bind functionBodyOption_gives fun body =>
    .finish fun _ ha => ?_
  exact ⟨rfl, rfl, .nil, ((ha.1.1.1.2.append ha.1.1.2).append ha.1.2).append ha.2⟩

instance : Proceeds (skipParameterStart g) := by
  unfold skipParameterStart
  refine .bind inferInstance fun _ => ?_
  dsimp only
  split
  · exact .bind inferInstance fun _ => .bind inferInstance fun _ => inferInstance
  · infer_instance

instance : Proceeds (isFunctionTypeAhead g) := by
  unfold isFunctionTypeAhead
  refine .bind inferInstance fun _ => ?_
  split
  · infer_instance
  · refine .bind inferInstance fun _ => ?_
    dsimp only
    split <;> infer_instance

instance : Stays (isFunctionTypeStart g) := by
  unfold isFunctionTypeStart
  refine .bind inferInstance fun k => ?_
  split <;> infer_instance

/-- A type inside another one. -/
theorem innerType_gives [Stable P] : Gives P (allowConditionalType (g .type)) built :=
  .allowConditionalType (part .type)

theorem functionType_gives [Stable P] : Gives P (functionType g) built := by
  unfold functionType
  refine .pos fun start => .step fun isAbstract => .step fun isConstructor =>
    .bind typeParameters_gives fun typeParameters => .bind parameters_gives fun ps =>
    .step fun _ => .bind (.allowConditionalType typeOrPredicate_gives) fun returnType =>
    .finishBuilt (fun _ ha => ha.1.1.1.2) fun _ ha => ?_
  have hall := ((ha.1.1.2.append ha.1.2).append (.one ha.2)).append .nil
  cases isConstructor <;> exact ⟨rfl, rfl, .nil, hall⟩

theorem signature_gives [Stable P] :
    Gives P (signature g) (always fun f => GenuineAll f.parameters ∧
      GenuineAll f.returnType.toList ∧ GenuineAll f.children) := by
  unfold signature
  refine .bind typeParameters_gives fun typeParameters => .bind parameters_gives fun ps =>
    .bind returnType_gives fun returnType => .pure fun _ ha => ?_
  exact ⟨ha.1.2, ha.2, ((ha.1.1.2.append ha.1.2).append ha.2).append .nil⟩

theorem indexParameter_gives [Stable P] : Gives P (indexParameter g) (always Node.Genuine) := by
  unfold indexParameter
  refine .stay fun start => .step fun ms => .step fun isRest => .bind identifier_gives fun name =>
    .step fun isOptional => .bind typeClause_gives fun type => .finish fun _ ha => ?_
  exact ⟨rfl, rfl, .nil, (GenuineAll.append (.one (genuine_toBinding ha.1.2)) ha.2).append .nil⟩

theorem indexSignature_gives [Stable P] :
    Gives P (indexSignature g) (always fun x => GenuineAll (x.1 ++ x.2.toList)) := by
  unfold indexSignature
  refine .step fun _ => .bind (.collect (R := Node.Genuine) ?_) fun ps => .step fun _ =>
    .bind typeClause_gives fun type => .pure fun _ ha => .append ha.1.2 ha.2
  exact .stay fun atEnd => .ite (fun _ => .pure fun _ _ => nofun) fun _ =>
    .bind indexParameter_gives fun p => .step fun _ => .pure fun _ ha => collected_some ha.2

theorem accessorSignature_gives [Stable P] {start : Nat} {ms : Modifiers} :
    Gives P (accessorSignature g start ms) (always Node.Genuine) := by
  unfold accessorSignature
  refine .stay fun isGet => .step fun _ => .bind propertyKey_gives fun name =>
    .bind signature_gives fun sig => .step fun _ => .finish fun _ ha => ?_
  obtain ⟨hparameters, hreturn, -⟩ := ha.2
  cases isGet
  · exact ⟨rfl, rfl, .nil, .cons ha.1.2 hparameters⟩
  · exact ⟨rfl, rfl, .nil, .cons ha.1.2 hreturn⟩

theorem signatureRest_gives [Stable P] {name : Node} {isOptional : Bool}
    (h : ∀ a, P a → name.Genuine) : Gives P (signatureRest g name isOptional)
      (always fun element => GenuineAll element.directChildren) := by
  unfold signatureRest
  refine .stay fun isMethod => .ite (fun _ => ?_) fun _ => ?_
  · exact .bind signature_gives fun sig => .pure fun a ha => .cons (h a ha.1) ha.2.2.2
  · exact .bind typeClause_gives fun type => .pure fun a ha => .cons (h a ha.1) ha.2

theorem namedSignature_gives [Stable P] {start : Nat} {ms : Modifiers} :
    Gives P (namedSignature g start ms) (always Node.Genuine) := by
  unfold namedSignature
  refine .bind propertyKey_gives fun name => .step fun isOptional =>
    .bind (signatureRest_gives fun _ ha => ha.2) fun element => .step fun _ =>
      .finish fun _ ha => ?_
  exact ⟨rfl, rfl, .nil, ha.2⟩

theorem typeMember_gives [Stable P] : Gives P (typeMember g) (always Node.Genuine) := by
  unfold typeMember
  refine .stay fun start => .stay fun isCall => .ite (fun _ => ?_) fun _ => .stay fun isConstruct =>
    .ite (fun _ => .step fun _ => ?_) fun _ => .step fun ms => .stay fun isAccessor =>
    .ite (fun _ => accessorSignature_gives) fun _ => .stay fun isIndex => .ite (fun _ => ?_)
    fun _ => namedSignature_gives
  · exact .bind signature_gives fun sig => .step fun _ => .finish fun _ ha =>
      ⟨rfl, rfl, .nil, ha.2.2.2⟩
  · exact .bind signature_gives fun sig => .step fun _ => .finish fun _ ha =>
      ⟨rfl, rfl, .nil, ha.2.2.2⟩
  · exact .bind indexSignature_gives fun _ => .step fun _ => .finish fun _ ha =>
      ⟨rfl, rfl, .nil, ha.2⟩

theorem typeMembers_gives [Stable P] : Gives P (typeMembers g) (always GenuineAll) := by
  unfold typeMembers
  refine .step fun found => .ite (fun _ => .pure fun _ _ => .nil) fun _ => .bind (.loop
    (I := always fun x : List Node × Bool => GenuineAll x.1) (fun _ _ => .nil)
    fun x => ?_) fun x => .step fun _ => .pure fun _ ha => .reverse ha.2
  obtain ⟨rev, inError⟩ := x
  refine .stay fun atEnd => .ite (fun _ => .pure fun _ ha => ha.2) fun _ => .stay fun starts =>
    .ite (fun _ => ?_) fun _ => ?_
  · refine .stay fun _ => .bind typeMember_gives fun m => .stay fun _ => ?_
    have keep (a : Place) (ha : (P a ∧ GenuineAll rev) ∧ m.Genuine) : GenuineAll (m :: rev) :=
      .cons ha.2 ha.1.2
    exact .ite (fun _ => .step fun _ => .pure keep) fun _ => .pure keep
  · dsimp only
    exact .ite (fun _ => .error) fun _ => .step fun _ => .pure fun _ ha => ha.2

theorem mappedType_gives [Stable P] : Gives P (mappedType g) built := by
  unfold mappedType
  refine .pos fun start => .step fun _ => .step fun readonlyToken => .step fun _ =>
    .stay fun keyStart => .bind identifier_gives fun name => .step fun _ =>
    .bind innerType_gives fun bound => .bind (.finish fun _ ha => ?_) fun key =>
    .bind typeAfter_gives fun nameType => .step fun _ => .step fun questionToken =>
    .bind typeClause_gives fun type => .step fun _ => .step fun _ =>
    .finishBuilt (fun _ ha => ha.1.1.1.1.1.2) fun _ ha => ?_
  · exact ⟨rfl, rfl, .one ha.1.2, .append (.one ha.2.1) .nil⟩
  · exact ⟨rfl, rfl, .nil, GenuineAll.append (.cons ha.1.1.2 ha.1.2) ha.2⟩

theorem tupleElement_gives [Stable P] : Gives P (tupleElement g) (always Node.Genuine) := by
  unfold tupleElement
  refine .stay fun start => .stay fun isNamed => .ite (fun _ => ?_) fun _ => .step fun isRest =>
    .ite (fun _ => ?_) fun _ => ?_
  · exact .step fun isRest => .bind identifierName_gives fun name => .step fun isOptional =>
      .step fun _ => .bind innerType_gives fun type => .finish fun _ ha =>
      ⟨rfl, rfl, .one ha.1.2, .one ha.2.1⟩
  · exact .bind innerType_gives fun type => .finish fun _ ha => ⟨rfl, rfl, .nil, .one ha.2.1⟩
  · refine .bind innerType_gives fun type => .step fun isOptional => .ite (fun _ => ?_) fun _ =>
      .pure fun _ ha => ha.2.1
    exact .finish fun _ ha => ⟨rfl, rfl, .nil, .one ha.2.1⟩

theorem tupleType_gives [Stable P] : Gives P (tupleType g) built := by
  unfold tupleType
  refine .pos fun start => .step fun _ => .bind (.collect (R := Node.Genuine) ?_) fun elements =>
    .step fun _ => .finishBuilt (fun _ ha => ha.1.2) fun _ ha => ⟨rfl, rfl, .nil, ha.2⟩
  refine .stay fun atEnd => .ite (fun _ => .pure fun _ _ => nofun) fun _ => ?_
  refine .stay fun starts => .ite (fun _ => .error) fun _ => ?_
  refine .stay fun start => .bind tupleElement_gives fun element => .step fun hasComma => ?_
  refine .ite (fun _ => .pure fun _ ha => collected_some ha.2) fun _ => .stay fun isClosed => ?_
  refine .ite (fun _ => .pure fun _ ha => collected_some ha.2) fun _ => ?_
  refine .step fun required => .stay fun now => .ite (fun _ => ?_) fun _ => ?_
  · exact .step fun advanced => .stay fun k => .pure fun _ ha => collected_some ha.2
  · exact .stay fun k => .pure fun _ ha => collected_some ha.2

theorem importType_gives [Stable P] {start : Nat} {isTypeof : Bool}
    (hs : ∀ a, P a → start ≤ a.pos) : Gives P (importType g start isTypeof) built := by
  unfold importType
  refine .step fun _ => .step fun _ => .bind stringLiteral_gives fun argument => .step fun _ =>
    .bind (.after (entityName_gives identifierName_gives)) fun qualifier =>
    .bind typeArgumentsOnLine_gives fun typeArguments =>
    .finishBuilt (fun a ha => hs a ha.1.1.1) fun _ ha => ?_
  exact ⟨rfl, rfl, .cons ha.1.1.2 (.flatMap ha.1.2), ha.2⟩

theorem templateLiteralType_gives [Stable P] : Gives P (templateLiteralType g) built := by
  unfold templateLiteralType
  refine .pos fun start => .stay fun head => .step fun _ => .bind (.collect ?_) fun spans =>
    .finishBuilt (fun _ ha => ha.1.2) fun _ ha => ⟨rfl, rfl, .nil, ha.2⟩
  refine .stay fun start => .bind innerType_gives fun type => ?_
  refine .bind (templateContinuation_gives fun _ ha => ha.2.2) fun piece => ?_
  exact .forget (finishPiece_gives rfl .nil rfl rfl fun _ ha => ⟨ha.1.2.1, ha.2⟩) fun n =>
    .pure fun _ ha => collected_some ha

theorem typeReference_gives [Stable P] : Gives P (typeReference g) built := by
  unfold typeReference
  refine .pos fun start => .bind (entityName_gives identifierName_gives) fun name =>
    .bind typeArgumentsOnLine_gives fun typeArguments => .finishBuilt (fun _ ha => ha.1.1.2)
    fun _ ha => ⟨rfl, rfl, ha.1.2, ha.2⟩

theorem namedType_gives [Stable P] : Gives P (namedType g) built := by
  unfold namedType
  exact .stay fun _ => .stay fun _ => .ite (fun _ => typeReference_gives) fun _ => .error

section
variable [Stable P] {start : Nat} (hs : ∀ a, P a → start ≤ a.pos)
include hs

theorem typeQuery_gives : Gives P (typeQuery g start) built := by
  unfold typeQuery
  refine .step fun _ => .stay fun _ => .ite (fun _ => importType_gives hs) fun _ => ?_
  exact .bind (entityName_gives identifierName_gives) fun name =>
    .bind typeArgumentsOnLine_gives fun typeArguments =>
    .finishBuilt (fun a ha => hs a ha.1.1) fun _ ha => ⟨rfl, rfl, ha.1.2, ha.2⟩

theorem thisType_gives : Gives P (thisType g start) built := by
  unfold thisType
  refine .step fun advanced => .stay fun isPredicate => .stay fun onNewLine => ?_
  refine .ite (fun _ => ?_) fun _ => ?_
  · exact .stay fun id => .step fun advanced => .bind (part .type) fun type =>
      .finishBuilt (fun a ha => hs a ha.1) fun _ ha =>
      ⟨rfl, rfl, .one (show "this" ≠ "" by decide), .one ha.2.1⟩
  · exact .finishBuilt hs fun _ _ => ⟨rfl, rfl, .nil, .nil⟩

theorem negativeLiteralType_gives : Gives P (negativeLiteralType g start) built := by
  unfold negativeLiteralType
  refine .step fun _ => .bind (part .primary) fun operand => .bind (.finish fun _ ha => ?_)
    fun literal => .finishBuilt (fun a ha => hs a ha.1.1) fun _ ha => ?_
  · exact ⟨rfl, rfl, .nil, .one ha.2.1⟩
  · exact ⟨rfl, rfl, .nil, .one ha.2⟩

theorem keywordType_gives : Gives P (keywordType start) built := by
  unfold keywordType
  exact .stay fun keyword => .step fun _ => .finishBuilt hs fun _ _ => ⟨rfl, rfl, .nil, .nil⟩

end

theorem primaryType_gives [Stable P] : Gives P (primaryType g) built := by
  unfold primaryType
  refine .pos fun start => .stay fun k => ?_
  have hs (a : Place) (ha : P a ∧ start ≤ a.pos) : start ≤ a.pos := ha.2
  split
  -- The words that name types, which can also start longer names.
  iterate 10
    exact .stay fun _ => .ite (fun _ => namedType_gives) fun _ => keywordType_gives hs
  iterate 2
    exact keywordType_gives hs
  · exact thisType_gives hs
  iterate 6
    exact .bind (part .primary) fun literal => .finishBuilt (fun _ ha => ha.1.2) fun _ ha =>
      ⟨rfl, rfl, .nil, .one ha.2.1⟩
  · exact .stay fun _ => .ite (fun _ => negativeLiteralType_gives hs) fun _ => namedType_gives
  · exact templateLiteralType_gives
  · exact typeQuery_gives hs
  · exact importType_gives hs
  · refine .stay fun _ => .ite (fun _ => mappedType_gives) fun _ => ?_
    exact .bind typeMembers_gives fun members => .finishBuilt (fun _ ha => ha.1.2) fun _ ha =>
      ⟨rfl, rfl, .nil, ha.2⟩
  · exact tupleType_gives
  · exact .step fun _ => .bind innerType_gives fun type => .step fun _ =>
      .finishBuilt (fun _ ha => ha.1.2) fun _ ha => ⟨rfl, rfl, .nil, .one ha.2.1⟩
  · exact namedType_gives

theorem postfixType_gives [Stable P] : Gives P (postfixType g) built := by
  unfold postfixType
  refine .pos fun start => .bind primaryType_gives fun first => .loop (I := built)
    (fun _ ha => ha.2) fun type => .stay fun _ => .stay fun _ =>
    .ite (fun _ => .pure fun _ ha => ha.2) fun _ => .step fun _ => .step fun isArray =>
    .ite (fun _ => ?_) fun _ => .bind innerType_gives fun index => .step fun _ => ?_
  · exact .forget (.finishBuilt (fun _ ha => ha.1.1.2) fun _ ha => ⟨rfl, rfl, .nil, .one ha.2.1⟩)
      fun n => .pure fun _ ha => ha
  · exact .forget (.finishBuilt (fun _ ha => ha.1.1.1.2) fun _ ha =>
      ⟨rfl, rfl, .nil, .cons ha.1.2.1 (.one ha.2.1)⟩) fun n => .pure fun _ ha => ha

theorem inferBound_gives [Stable P] : Gives P (inferBound? g) (optional Node.Genuine) := by
  unfold inferBound?
  refine .attempt (.step fun found => .ite (fun _ => .pure fun _ _ => nofun) fun _ => ?_)
    fun _ => nofun
  refine .bind (.disallowConditionalType (part .type)) fun bound => .stay fun _ => .stay fun _ =>
    .ite (fun _ => .pure fun _ ha => ?_) fun _ => .pure fun _ _ => nofun
  exact optional_some ha.2.1

theorem typeOperator_gives [Stable P] : Gives P (typeOperator g) built := by
  unfold typeOperator
  refine .pos fun start => .stay fun k => ?_
  split
  iterate 3
    exact .stay fun operator => .step fun _ => .bind (part .typeOperator) fun type =>
      .finishBuilt (fun _ ha => ha.1.2) fun _ ha => ⟨rfl, rfl, .nil, .one ha.2.1⟩
  · refine .step fun _ => .stay fun nameStart => .bind identifier_gives fun name =>
      .bind inferBound_gives fun bound => .bind (.finish fun _ ha => ?_) fun variable_ =>
      .finishBuilt (fun _ ha => ha.1.1.1.2) fun _ ha => ?_
    · exact ⟨rfl, rfl, .one ha.1.2, GenuineAll.append ha.2 .nil⟩
    · exact ⟨rfl, rfl, .nil, .one ha.2⟩
  · exact postfixType_gives.weaken fun _ ha => ha.1

theorem typeOperand_gives [Stable P] {operand : Parse Node} (h : Gives P operand built) :
    Gives P (typeOperand g operand) built :=
  .stay fun _ => .ite (fun _ => functionType_gives) fun _ => h

theorem operatorType_gives [Stable P] {operator : TokenKind} {form : List Node → Form}
    {operand : Parse Node} (hform : ∀ ns, GenuineAll ns → (form ns).Genuine)
    (h : Gives (fun _ => True) operand built) :
    Gives P (operatorType g operator form operand) built := by
  unfold operatorType
  refine .pos fun start => .step fun hasLeading => .bind (typeOperand_gives h.any) fun first =>
    .stay fun _ => .ite (fun _ => .pure fun _ ha => ha.2) fun _ =>
    .bind (.collect (R := Node.Genuine) ?_) fun rest => .finishBuilt (fun _ ha => ha.1.1.2)
    fun _ ha => hform _ (.cons ha.1.2.1 ha.2)
  refine .step fun _ => .ite (fun _ => ?_) fun _ => .pure fun _ _ => nofun
  exact .bind (typeOperand_gives h.any) fun n => .pure fun _ ha => collected_some ha.2.1

theorem intersectionType_gives [Stable P] : Gives P (intersectionType g) built :=
  operatorType_gives (fun _ h => ⟨rfl, rfl, .nil, h⟩) (part .typeOperator)

theorem unionType_gives [Stable P] : Gives P (unionType g) built :=
  operatorType_gives (fun _ h => ⟨rfl, rfl, .nil, h⟩) intersectionType_gives

theorem conditionalTypeRest_gives [Stable P] {start : Nat} {checkType : Node}
    (hs : ∀ a, P a → start ≤ a.pos) (hc : ∀ a, P a → checkType.Genuine) :
    Gives P (conditionalTypeRest g start checkType) built := by
  unfold conditionalTypeRest
  refine .bind (.disallowConditionalType (part .type)) fun extendsType => .step fun _ =>
    .bind innerType_gives fun trueType => .step fun _ => .bind innerType_gives fun falseType =>
    .finishBuilt (fun a ha => hs a ha.1.1.1) fun a ha => ⟨rfl, rfl, .nil, ?_⟩
  exact .cons (hc a ha.1.1.1) (.cons ha.1.1.2.1 (.cons ha.1.2.1 (.one ha.2.1)))

theorem typeInner_gives [Stable P] : Gives P (typeInner g) built := by
  unfold typeInner
  refine .stay fun starts => .ite (fun _ => .error) fun _ => .stay fun _ =>
    .ite (fun _ => functionType_gives) fun _ => .pos fun start =>
    .bind unionType_gives fun checkType => .stay fun _ => .stay fun _ =>
    .ite (fun _ => .pure fun _ ha => ha.2) fun _ => .step fun _ => .ite (fun _ => ?_) fun _ =>
    .pure fun _ ha => ha.2
  exact conditionalTypeRest_gives (fun _ ha => ha.1.2) fun _ ha => ha.2.1

theorem type_gives [Stable P] : Gives P (type g) built := .nested typeInner_gives

end Erasure.Parse
