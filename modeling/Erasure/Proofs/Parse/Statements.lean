import Erasure.Proofs.Parse.Expressions

/-!
Variables, imports, exports, all other declarations and statements are genuine as long as nothing
was reported.
-/

namespace Erasure.Parse

variable {P : Place → Prop} {g : Grammar} [Sound g]

theorem variableDeclaration_gives [Stable P] :
    Gives P (variableDeclaration g) (always Node.Genuine) := by
  unfold variableDeclaration
  refine .stay fun start => .bind (part (.binding _)) fun name => .step fun isDefinite =>
    .bind typeClause_gives fun type => .bind initializer_gives fun initializer => .stay fun _ =>
    .finish fun _ ha => ?_
  exact ⟨rfl, rfl, .nil, GenuineAll.append (.cons ha.1.1.2 ha.1.2) ha.2⟩

theorem variableList_gives [Stable P] : Gives P (variableList g) (always Node.Genuine) := by
  unfold variableList
  refine .stay fun start => .step fun kind => .bind (.loop (I := always GenuineAll)
    (fun _ _ => .nil) fun rev => ?_) fun rev => .finish fun _ ha => ⟨rfl, rfl, .nil, .reverse ha.2⟩
  refine .stay fun _ => .ite (fun _ => .error) fun _ => .bind variableDeclaration_gives
    fun declaration => .step fun found => .pure fun _ ha => ?_
  have hall : GenuineAll (declaration :: rev) := .cons ha.2 ha.1.2
  cases found <;> exact hall

theorem variableStatement_gives [Stable P] {start : Nat} {ms : Modifiers} :
    Gives P (variableStatement g start ms) (always Node.Genuine) := by
  unfold variableStatement
  exact .bind variableList_gives fun list => .stay fun _ => .step fun _ => .finish fun _ ha =>
    ⟨rfl, rfl, .nil, .one ha.2⟩

theorem exportName_gives [Stable P] :
    Gives P exportName (always fun name => name.word ≠ "") := by
  unfold exportName
  refine .stay fun _ => .ite (fun _ => ?_) fun _ => ?_
  · exact .bind stringLiteral_gives fun literal => .pure fun _ ha => ha.2
  · exact .bind identifierName_gives fun name => .pure fun _ ha => ha.2

/-- The names of a specifier were not made up. -/
structure Specified (names : SpecifierNames) : Prop where
  property : ∀ name ∈ names.property?.toList, name.word ≠ ""
  name : names.name.word ≠ ""

theorem Specified.renamed {isTypeOnly : Bool} {property name : ExportName}
    (hproperty : property.word ≠ "") (hname : name.word ≠ "") :
    Specified ⟨isTypeOnly, some property, name⟩ :=
  ⟨List.forall_mem_singleton.mpr hproperty, hname⟩

theorem specifierAfterType_gives [Stable P] {word : ExportName}
    (h : ∀ a, P a → word.word ≠ "") :
    Gives P (specifierAfterType word) (always fun x => Specified x.1) := by
  unfold specifierAfterType
  refine .stay fun hasAs => .ite (fun _ => ?_) fun _ => ?_
  · refine .bind identifierName_gives fun firstAs => .stay fun hasAs => ?_
    refine .ite (fun _ => ?_) fun _ => .stay fun isName => .ite (fun _ => ?_) fun _ => ?_
    · refine .bind identifierName_gives fun secondAs => .stay fun isName => ?_
      refine .ite (fun _ => ?_) fun _ => ?_
      · exact .bind exportName_gives fun name => .pure fun _ ha => .renamed ha.1.1.2 ha.2
      · exact .pure fun a ha => .renamed (h a ha.1.1) ha.2
    · exact .bind exportName_gives fun name => .pure fun a ha => .renamed (h a ha.1.1) ha.2
    · exact .pure fun _ ha => ⟨nofun, ha.2⟩
  · refine .stay fun isName => .stay fun isString => .ite (fun _ => ?_) fun _ => ?_
    · exact .bind exportName_gives fun name => .pure fun _ ha => ⟨nofun, ha.2⟩
    · exact .pure fun a ha => ⟨nofun, h a ha⟩

theorem firstNames_gives [Stable P] : Gives P firstNames (always fun x => Specified x.1) := by
  unfold firstNames
  refine .bind exportName_gives fun first => .ite (fun _ => ?_) fun _ => ?_
  · exact specifierAfterType_gives fun _ ha => ha.2
  · exact .pure fun _ ha => ⟨nofun, ha.2⟩

theorem specifierNames_gives [Stable P] : Gives P specifierNames (always Specified) := by
  unfold specifierNames
  refine .bind firstNames_gives fun head => ?_
  obtain ⟨names, canRename⟩ := head
  have rest : Gives (fun a => P a ∧ always (fun x : SpecifierNames × Bool => Specified x.1)
      (names, canRename) a) (pure names) (always Specified) := .pure fun _ ha => ha.2
  refine .ite (fun _ => .step fun _ => .ite (fun _ => ?_) fun _ => rest) fun _ => rest
  exact .bind exportName_gives fun name => .pure fun _ ha => .renamed ha.1.2.name ha.2

theorem specifierList_gives [Stable P] {α : Type} {R : α → Prop} {element : Parse α}
    (h : Gives P element (always R)) :
    Gives P (specifierList element) (always fun xs => ∀ x ∈ xs, R x) := by
  unfold specifierList
  refine .step fun _ => .bind (.collect ?_) fun elements => .step fun _ => .pure fun _ ha => ha.2
  refine .stay fun atEnd => .ite (fun _ => .pure fun _ _ => nofun) fun _ => .stay fun _ =>
    .stay fun _ => .ite (fun _ => .error) fun _ => .bind h fun x => .step fun _ =>
    .pure fun _ ha => collected_some ha.2

theorem localName_gives {name : ExportName} (h : ∀ a, P a → name.word ≠ "") :
    Gives P (localName name) named := by
  cases name with
  | identifier name => exact .pure h
  | string literal => exact .fail fun s => s.not_quiet_error _ _ _ _

theorem importSpecifier_gives [Stable P] :
    Gives P importSpecifier (always fun x => Written x.words) := by
  unfold importSpecifier
  refine .stay fun start => .bind specifierNames_gives fun names =>
    .bind (localName_gives fun _ ha => ha.2.name) fun name => .stay fun id => .stay fun _ =>
    .pure fun _ ha => ?_
  exact .append (.map ha.1.2.property) (.one ha.2)

theorem exportSpecifier_gives [Stable P] :
    Gives P exportSpecifier (always fun x => Written x.words) := by
  unfold exportSpecifier
  refine .stay fun start => .bind specifierNames_gives fun names => .stay fun id => .stay fun _ =>
    .pure fun _ ha => ?_
  exact .append (.map ha.2.property) (.one ha.2.name)

theorem importAttribute_gives [Stable P] : Gives P (importAttribute g) (always Node.Genuine) := by
  unfold importAttribute
  exact .stay fun start => .stay fun name => .step fun _ => .step fun _ => .bind (part .assignment)
    fun value => .finish fun _ ha => ⟨rfl, rfl, .nil, .one ha.2.1⟩

theorem importAttributes_gives [Stable P] :
    Gives P (importAttributes? g) (optional Node.Genuine) := by
  unfold importAttributes?
  refine .stay fun start => .stay fun keyword => .stay fun _ =>
    .ite (fun _ => .pure fun _ _ => nofun)
    fun _ => .step fun _ => .bind (specifierList_gives importAttribute_gives) fun elements => ?_
  exact .bind (.finish fun _ ha => ⟨rfl, rfl, .nil, ha.2⟩) fun n => .pure fun _ ha =>
    optional_some ha.2

theorem importBindings_gives [Stable P] :
    Gives P importBindings? (optional fun x => Written x.words) := by
  unfold importBindings?
  refine .step fun _ => .ite (fun _ => .step fun _ => ?_) fun _ => .stay fun _ =>
    .ite (fun _ => .error) fun _ => ?_
  · exact .bind identifier_gives fun name => .pure fun _ ha => optional_some (.one ha.2)
  · exact .bind (specifierList_gives importSpecifier_gives) fun specifiers => .pure fun _ ha =>
      optional_some (.flatMap ha.2)

theorem moduleReference_gives [Stable P] :
    Gives P moduleReference (always fun x => Written x.words) := by
  unfold moduleReference
  refine .stay fun _ => .ite (fun _ => .step fun _ => .step fun _ => ?_) fun _ => ?_
  · exact .bind stringLiteral_gives fun specifier => .step fun _ => .pure fun _ ha => .one ha.2
  · exact .bind (entityName_gives identifier_gives) fun name => .pure fun _ ha => ha.2

theorem importEqualsRest_gives [Stable P] {start : Nat} {ms : Modifiers} {isTypeOnly : Bool}
    {name : Identifier} (h : ∀ a, P a → name.text ≠ "") :
    Gives P (importEqualsRest start ms isTypeOnly name) (always Node.Genuine) := by
  unfold importEqualsRest
  exact .step fun _ => .bind moduleReference_gives fun reference => .step fun _ =>
    .finish fun a ha => ⟨rfl, rfl, .cons (h a ha.1) ha.2, .nil⟩

theorem bindingsAfter_gives [Stable P] {name? : Option Identifier} :
    Gives P (bindingsAfter? name?) (optional fun x => Written x.words) := by
  unfold bindingsAfter?
  exact .ite (fun _ => importBindings_gives) fun _ => .step fun _ =>
    .ite (fun _ => importBindings_gives) fun _ => .pure fun _ _ => nofun

/-- A name that can be left out. -/
def namedSome : Option Identifier → Place → Prop := optional fun name => name.text ≠ ""

instance (name? : Option Identifier) : Stable (namedSome name?) :=
  inferInstanceAs (Stable (optional _ name?))

theorem importFrom_gives [Stable P] {start clauseStart : Nat} {ms : Modifiers} {isTypeOnly : Bool}
    {name? : Option Identifier} (h : ∀ a, P a → namedSome name? a) :
    Gives P (importFrom g start clauseStart ms isTypeOnly name?) (always Node.Genuine) := by
  unfold importFrom
  refine .bind bindingsAfter_gives fun bindings => .stay fun id => .stay fun _ => .step fun _ =>
    .bind stringLiteral_gives fun specifier => .bind importAttributes_gives fun attributes =>
    .step fun _ => .finish fun a ha => ⟨rfl, rfl, ?_, ha.2⟩
  exact .append (.append (.append (.map (h a ha.1.1.1)) (.flatMap ha.1.1.2)) .nil) (.one ha.1.2)

theorem importName_gives [Stable P] :
    Gives P importName? (always fun x => ∀ name ∈ x.1.toList, name.text ≠ "") := by
  unfold importName?
  refine .bind (.when identifier_gives) fun first => ?_
  have rest : Gives (fun a => P a ∧ namedSome first a) (pure (first, false))
      (always fun x => ∀ name ∈ x.1.toList, name.text ≠ "") := .pure fun _ ha => ha.2
  refine .ite (fun _ => .stay fun _ => .ite (fun _ => ?_) fun _ => rest) fun _ => rest
  exact .bind (.when identifier_gives) fun name => .pure fun _ ha => ha.2

theorem importClauseRest_gives [Stable P] {start : Nat} {ms : Modifiers} :
    Gives P (importClauseRest g start ms) (always Node.Genuine) := by
  unfold importClauseRest
  refine .stay fun clauseStart => .bind importName_gives fun head => ?_
  obtain ⟨name?, isTypeOnly⟩ := head
  dsimp only
  have rest : Gives (fun a => P a ∧ ∀ name ∈ name?.toList, name.text ≠ "")
      (importFrom g start clauseStart ms isTypeOnly name?) (always Node.Genuine) :=
    importFrom_gives fun _ ha => ha.2
  split
  · refine .stay fun _ => .ite (fun _ => ?_) fun _ => rest
    exact importEqualsRest_gives fun _ ha => ha.2 _ List.mem_cons_self
  · exact rest

theorem importDeclaration_gives [Stable P] {start : Nat} {ms : Modifiers} :
    Gives P (importDeclaration g start ms) (always Node.Genuine) := by
  unfold importDeclaration
  refine .step fun _ => .stay fun _ => .ite (fun _ => ?_) fun _ => importClauseRest_gives
  exact .bind stringLiteral_gives fun specifier => .bind importAttributes_gives fun attributes =>
    .step fun _ => .finish fun _ ha => ⟨rfl, rfl, .one ha.1.2, ha.2⟩

theorem exportClause_gives [Stable P] : Gives P exportClause (always fun x =>
    Written (x.1.toList.flatMap ExportClause.words ++ x.2.toList.map StringLiteral.raw)) := by
  unfold exportClause
  refine .step fun _ => .ite (fun _ => .bind (.after exportName_gives) fun name => .step fun _ =>
    .bind stringLiteral_gives fun specifier => .pure fun _ ha => ?_) fun _ =>
    .bind (specifierList_gives exportSpecifier_gives) fun specifiers =>
    .bind (.after stringLiteral_gives) fun specifier => .pure fun _ ha => ?_
  · refine .append (.flatMap ?_) (.one ha.2)
    cases name with
    | none => exact nofun
    | some name => exact List.forall_mem_singleton.mpr (.one (ha.1.2 _ List.mem_cons_self))
  · exact .append (.flatMap (List.forall_mem_singleton.mpr (.flatMap ha.1.2))) (.map ha.2)

theorem attributesAfter_gives [Stable P] {specifier : Option StringLiteral} :
    Gives P (attributesAfter? g specifier) (optional Node.Genuine) :=
  .ite (fun _ => importAttributes_gives) fun _ => .pure fun _ _ => nofun

theorem exportDeclaration_gives [Stable P] {start : Nat} {ms : Modifiers} :
    Gives P (exportDeclaration g start ms) (always Node.Genuine) := by
  unfold exportDeclaration
  exact .step fun isTypeOnly => .bind exportClause_gives fun _ =>
    .bind attributesAfter_gives fun attributes => .step fun _ => .finish fun _ ha =>
    ⟨rfl, rfl, ha.1.2, ha.2⟩

theorem exportAssignment_gives [Stable P] {start : Nat} {isEquals : Bool} :
    Gives P (exportAssignment g start isEquals) (always Node.Genuine) := by
  unfold exportAssignment
  exact .step fun _ => .bind (part .assignment) fun expression => .step fun _ => .finish fun _ ha =>
    ⟨rfl, rfl, .nil, .one ha.2.1⟩

theorem exportForm_gives [Stable P] {start : Nat} {ms : Modifiers} :
    Gives P (exportForm g start ms) (always Node.Genuine) := by
  unfold exportForm
  refine .step fun _ => .stay fun k => ?_
  split
  · exact exportAssignment_gives
  · exact exportAssignment_gives
  · exact .step fun _ => .step fun _ => .bind identifier_gives fun name => .step fun _ =>
      .finish fun _ ha => ⟨rfl, rfl, .one ha.2, .nil⟩
  · exact exportDeclaration_gives

theorem declarationHead_gives [Stable P] :
    Gives P (declarationHead g) (always fun x => GenuineAll x.1) := by
  unfold declarationHead
  refine .bind decorators_gives fun ds => .step fun ms => .stay fun _ => .ite (fun _ => ?_) fun _ =>
    .pure fun _ ha => ha.2
  exact .bind decorators_gives fun more => .step fun _ => .pure fun _ ha => ha.1.2.append ha.2

section
variable [Stable P] {start : Nat} {ms : Modifiers}

theorem functionDeclaration_gives :
    Gives P (functionDeclaration g start ms) (always Node.Genuine) := by
  unfold functionDeclaration
  exact .step fun _ => .step fun isGenerator => .bind (.when identifier_gives) fun name =>
    .bind functionRest_gives fun func => .finish fun _ ha => ⟨rfl, rfl, .map ha.1.2, .one ha.2⟩

theorem classDeclaration_gives {ds : List Node} (h : ∀ a, P a → GenuineAll ds) :
    Gives P (classDeclaration g start ds ms) (always Node.Genuine) := by
  unfold classDeclaration
  refine .stay fun keyword => .bind (classLike_gives h) fun cls => ?_
  have rest : Gives (fun a => P a ∧ always Node.Genuine cls a) (finish start (.classStmt cls))
      (always Node.Genuine) := .finish fun _ ha => ⟨rfl, rfl, .nil, .one ha.2⟩
  exact .ite (fun _ => .stay fun _ => rest) fun _ => rest

theorem interfaceBases_gives : Gives P (interfaceBases g) (always GenuineAll) :=
  .step fun _ => .ite (fun _ => heritageList_gives) fun _ => .pure fun _ _ => .nil

theorem interfaceDeclaration_gives :
    Gives P (interfaceDeclaration g start ms) (always Node.Genuine) := by
  unfold interfaceDeclaration
  refine .step fun _ => .bind identifier_gives fun name => .bind typeParameters_gives
    fun typeParameters => .bind interfaceBases_gives fun bases => .bind typeMembers_gives
    fun members => .finish fun _ ha => ?_
  exact ⟨rfl, rfl, .one ha.1.1.1.2, (ha.1.1.2.append ha.1.2).append ha.2⟩

theorem typeAlias_gives : Gives P (typeAlias g start ms) (always Node.Genuine) := by
  unfold typeAlias
  refine .step fun _ => .bind identifier_gives fun name => .bind typeParameters_gives
    fun typeParameters => .step fun _ => .bind (part .type) fun type => .step fun _ =>
    .finish fun _ ha => ?_
  exact ⟨rfl, rfl, .one ha.1.1.2, ha.1.2.append (.one ha.2.1)⟩

theorem enumMember_gives : Gives P (enumMember g) (always Node.Genuine) := by
  unfold enumMember
  exact .stay fun start => .bind propertyKey_gives fun name => .bind (.allowIn initializer_gives)
    fun initializer => .finish fun _ ha => ⟨rfl, rfl, .nil, .cons ha.1.2 ha.2⟩

theorem enumMembers_gives : Gives P (enumMembers g) (always GenuineAll) := by
  unfold enumMembers
  refine .step fun _ => .ite (fun _ => .pure fun _ _ => .nil) fun _ =>
    .bind (.collect (R := Node.Genuine) ?_) fun members => .step fun _ => .pure fun _ ha => ha.2
  exact .stay fun atEnd => .ite (fun _ => .pure fun _ _ => nofun) fun _ => .stay fun _ =>
    .ite (fun _ => .error) fun _ => .bind enumMember_gives fun m => .step fun _ =>
    .pure fun _ ha => collected_some ha.2

theorem enumDeclaration_gives : Gives P (enumDeclaration g start ms) (always Node.Genuine) := by
  unfold enumDeclaration
  exact .step fun _ => .bind identifier_gives fun name => .bind enumMembers_gives fun members =>
    .finish fun _ ha => ⟨rfl, rfl, .one ha.1.2, ha.2⟩

theorem moduleStatements_gives : Gives P (moduleStatements g) (always GenuineAll) := by
  unfold moduleStatements
  refine .step fun _ => .ite (fun _ => ?_) fun _ => .pure fun _ _ => .nil
  exact .bind statementList_gives fun statements => .step fun _ => .pure fun _ ha => ha.2

theorem moduleBlock_gives : Gives P (moduleBlock g) (always Node.Genuine) := by
  unfold moduleBlock
  exact .stay fun start => .bind moduleStatements_gives fun statements => .finish fun _ ha =>
    ⟨rfl, rfl, .nil, ha.2⟩

theorem namespaceContent_gives : Gives P (namespaceContent g ms) (always Node.Genuine) := by
  unfold namespaceContent
  exact .step fun _ => .ite (fun _ => .stay fun start => part (.namespaceBody _ _)) fun _ =>
    moduleBlock_gives

theorem namespaceBody_gives : Gives P (namespaceBody g start ms) (always Node.Genuine) := by
  unfold namespaceBody
  exact .bind identifier_gives fun name => .bind namespaceContent_gives fun body =>
    .finish fun _ ha => ⟨rfl, rfl, .one ha.1.2, .one ha.2⟩

theorem stringModuleBody_gives : Gives P (stringModuleBody? g) (optional Node.Genuine) := by
  unfold stringModuleBody?
  refine .stay fun _ => .ite (fun _ => ?_) fun _ => .step fun _ => .pure fun _ _ => nofun
  exact .bind moduleBlock_gives fun body => .pure fun _ ha => optional_some ha.2

theorem stringModule_gives : Gives P (stringModule g start ms) (always Node.Genuine) := by
  unfold stringModule
  exact .bind stringLiteral_gives fun name => .bind stringModuleBody_gives fun body =>
    .finish fun _ ha => ⟨rfl, rfl, .one ha.1.2, ha.2⟩

theorem moduleDeclaration_gives :
    Gives P (moduleDeclaration g start ms) (always Node.Genuine) := by
  unfold moduleDeclaration
  refine .stay fun _ => .ite (fun _ => ?_) fun _ => .step fun _ => .stay fun _ =>
    .ite (fun _ => stringModule_gives) fun _ => namespaceBody_gives
  exact .bind identifierName_gives fun name => .bind moduleBlock_gives fun body =>
    .finish fun _ ha => ⟨rfl, rfl, .one ha.1.2, .one ha.2⟩

theorem moduleStatement_gives : Gives P (moduleStatement g start ms) (always Node.Genuine) := by
  unfold moduleStatement
  exact .bind moduleDeclaration_gives fun declaration => .finish fun _ ha =>
    ⟨rfl, rfl, .nil, .one ha.2⟩

theorem declarationRest_gives {ds : List Node} (h : ∀ a, P a → GenuineAll ds) :
    Gives P (declarationRest g start ds ms) (always Node.Genuine) := by
  unfold declarationRest
  refine .stay fun k => ?_
  split
  iterate 5
    exact variableStatement_gives
  · exact functionDeclaration_gives
  · exact classDeclaration_gives h
  · exact interfaceDeclaration_gives
  · exact typeAlias_gives
  · exact enumDeclaration_gives
  iterate 3
    exact moduleStatement_gives
  · exact importDeclaration_gives
  · exact exportForm_gives
  · exact .ite (fun _ => part .statement) fun _ => .error

theorem declaration_gives : Gives P (declaration g) (always Node.Genuine) := by
  unfold declaration
  exact .stay fun start => .bind declarationHead_gives fun _ => .stay fun _ =>
    .stay fun _ => .withContext _ (declarationRest_gives fun _ ha => ha.2)

end

section
variable [Stable P] {start : Nat}

theorem expressionStatement_gives :
    Gives P (expressionStatement g start) (always Node.Genuine) := by
  unfold expressionStatement
  exact .bind expression_gives fun e => .step fun _ => .finish fun _ ha =>
    ⟨rfl, rfl, .nil, .one ha.2.1⟩

omit [Sound g] in
theorem debuggerStatement_gives : Gives P (debuggerStatement start) (always Node.Genuine) := by
  unfold debuggerStatement
  exact .step fun _ => .step fun _ => .finish fun _ _ => ⟨rfl, rfl, .nil, .nil⟩

omit [Sound g] in
theorem jumpStatement_gives {form : Option Identifier → Form}
    (h : ∀ label : Option Identifier, (∀ name ∈ label.toList, name.text ≠ "") →
      (form label).Genuine) : Gives P (jumpStatement start form) (always Node.Genuine) := by
  unfold jumpStatement
  exact .step fun _ => .bind (.when identifier_gives) fun label => .step fun _ =>
    .finish fun _ ha =>
    h label ha.2

theorem returnStatement_gives : Gives P (returnStatement g start) (always Node.Genuine) := by
  unfold returnStatement
  exact .step fun _ => .bind (.whenNot expressionAllowIn_gives.genuine) fun value =>
    .step fun _ => .finish fun _ ha => ⟨rfl, rfl, .nil, ha.2⟩

theorem throwStatement_gives : Gives P (throwStatement g start) (always Node.Genuine) := by
  unfold throwStatement
  exact .step fun _ => .bind expressionAllowIn_gives fun value => .step fun _ => .finish fun _ ha =>
    ⟨rfl, rfl, .nil, .one ha.2.1⟩

theorem labeledStatement_gives : Gives P (labeledStatement g start) (always Node.Genuine) := by
  unfold labeledStatement
  exact .bind identifier_gives fun label => .step fun _ => .bind (part .statement) fun body =>
    .finish fun _ ha => ⟨rfl, rfl, .one ha.1.2, .one ha.2⟩

theorem condition_gives : Gives P (condition g) (always Node.Genuine) := by
  unfold condition
  exact .step fun _ => .bind expressionAllowIn_gives fun e => .step fun _ =>
    .pure fun _ ha => ha.2.1

theorem ifStatement_gives : Gives P (ifStatement g start) (always Node.Genuine) := by
  unfold ifStatement
  exact .step fun _ => .bind condition_gives fun test => .bind (part .statement) fun thenBranch =>
    .bind (.after (part .statement)) fun elseBranch => .finish fun _ ha =>
    ⟨rfl, rfl, .nil, .cons ha.1.1.2 (.cons ha.1.2 ha.2)⟩

theorem doStatement_gives : Gives P (doStatement g start) (always Node.Genuine) := by
  unfold doStatement
  exact .step fun _ => .bind (part .statement) fun body => .step fun _ => .bind condition_gives
    fun test => .step fun _ => .finish fun _ ha => ⟨rfl, rfl, .nil, .cons ha.1.2 (.one ha.2)⟩

theorem whileStatement_gives : Gives P (whileStatement g start) (always Node.Genuine) := by
  unfold whileStatement
  exact .step fun _ => .bind condition_gives fun test => .bind (part .statement) fun body =>
    .finish fun _ ha => ⟨rfl, rfl, .nil, .cons ha.1.2 (.one ha.2)⟩

theorem withStatement_gives : Gives P (withStatement g start) (always Node.Genuine) := by
  unfold withStatement
  exact .step fun _ => .bind condition_gives fun object => .bind (part .statement) fun body =>
    .finish fun _ ha => ⟨rfl, rfl, .nil, .cons ha.1.2 (.one ha.2)⟩

theorem loopVariables_gives : Gives P (loopVariables g) (always Node.Genuine) := by
  unfold loopVariables
  exact .stay fun declares => .withContext _ (.ite (fun _ => variableList_gives) fun _ =>
    expression_gives.genuine)

section
variable {initializer : Node} (h : ∀ a, P a → initializer.Genuine)
include h

theorem forOfRest_gives {isAwait : Bool} :
    Gives P (forOfRest g start isAwait initializer) (always Node.Genuine) := by
  unfold forOfRest
  refine .step fun _ => .bind (.allowIn (part .assignment)) fun source => .step fun _ =>
    .bind (part .statement) fun body => .finish fun a ha => ⟨rfl, rfl, .nil, ?_⟩
  exact .cons (h a ha.1.1) (.cons ha.1.2.1 (.one ha.2))

theorem forInRest_gives : Gives P (forInRest g start initializer) (always Node.Genuine) := by
  unfold forInRest
  refine .bind expressionAllowIn_gives fun source => .step fun _ => .bind (part .statement)
    fun body => .finish fun a ha => ⟨rfl, rfl, .nil, ?_⟩
  exact .cons (h a ha.1.1) (.cons ha.1.2.1 (.one ha.2))

end

theorem forRest_gives {initializer : Option Node}
    (h : ∀ a, P a → GenuineAll initializer.toList) :
    Gives P (forRest g start initializer) (always Node.Genuine) := by
  unfold forRest
  refine .stay fun _ => .step fun _ => .bind (.whenNot expressionAllowIn_gives.genuine)
    fun test => .step fun _ => .bind (.whenNot expressionAllowIn_gives.genuine)
    fun incrementor => .step fun _ => .bind (part .statement) fun body => .finish fun a ha =>
    ⟨rfl, rfl, .nil, ?_⟩
  exact (((h a ha.1.1.1).append ha.1.1.2).append ha.1.2).append (.one ha.2)

theorem forStatement_gives : Gives P (forStatement g start) (always Node.Genuine) := by
  unfold forStatement
  refine .step fun _ => .step fun isAwait => .step fun _ => .bind (.whenNot loopVariables_gives)
    fun initializer => ?_
  split
  · exact forRest_gives fun _ _ => .nil
  · rename_i initializer
    have hi (a : Place) (ha : P a ∧ optional Node.Genuine (some initializer) a) :
        initializer.Genuine := ha.2 _ List.mem_cons_self
    exact .stay fun _ => .ite (fun _ => forOfRest_gives hi) fun _ => .step fun _ =>
      .ite (fun _ => forInRest_gives hi) fun _ => forRest_gives fun a ha => .one (hi a ha)

theorem catchVariable_gives : Gives P (catchVariable g) (always Node.Genuine) := by
  unfold catchVariable
  refine .stay fun start => .bind (part (.binding _)) fun name => .bind typeClause_gives fun type =>
    .bind (.finish fun _ ha => ⟨rfl, rfl, .nil, ?_⟩) fun declaration => .step fun _ =>
    .pure fun _ ha => ha.2
  exact .append (.cons ha.1.2 ha.2) .nil

theorem catchClause_gives : Gives P (catchClause g) (always Node.Genuine) := by
  unfold catchClause
  exact .stay fun start => .step fun _ => .bind (.after catchVariable_gives) fun binding? =>
    .bind block_gives fun body => .finish fun _ ha =>
    ⟨rfl, rfl, .nil, GenuineAll.append ha.1.2 (.one ha.2)⟩

theorem tryStatement_gives : Gives P (tryStatement g start) (always Node.Genuine) := by
  unfold tryStatement
  exact .step fun _ => .bind block_gives fun body => .bind (.when catchClause_gives) fun handler =>
    .bind (.after block_gives) fun finalizer => .stay fun _ => .finish fun _ ha =>
    ⟨rfl, rfl, .nil, .append (.cons ha.1.1.2 ha.1.2) ha.2⟩

theorem caseTest_gives : Gives P (caseTest? g) (optional Node.Genuine) := by
  unfold caseTest?
  refine .step fun _ => .ite (fun _ => ?_) fun _ => .step fun _ => .pure fun _ _ => nofun
  exact .bind expressionAllowIn_gives fun e => .pure fun _ ha => optional_some ha.2.1

theorem caseClause_gives : Gives P (caseClause g) (always Node.Genuine) := by
  unfold caseClause
  exact .stay fun start => .bind caseTest_gives fun test => .step fun _ => .stay fun _ =>
    .bind statementList_gives fun statements => .finish fun _ ha =>
    ⟨rfl, rfl, .nil, GenuineAll.append ha.1.2 ha.2⟩

theorem switchClauses_gives : Gives P (switchClauses g) (always GenuineAll) := by
  unfold switchClauses
  refine .step fun _ => .ite (fun _ => .pure fun _ _ => .nil) fun _ => .bind
    (.loop (I := always GenuineAll) (fun _ _ => .nil) fun rev => ?_) fun rev => .step fun _ =>
    .pure fun _ ha => .reverse ha.2
  refine .stay fun _ => .ite (fun _ => .pure fun _ ha => ha.2) fun _ => .stay fun _ =>
    .ite (fun _ => .error) fun _ => .bind caseClause_gives fun clause => ?_
  have keep (a : Place) (ha : (P a ∧ GenuineAll rev) ∧ clause.Genuine) :
      GenuineAll (clause :: rev) := .cons ha.2 ha.1.2
  exact .ite (fun _ => .stay fun _ => .pure keep) fun _ => .pure keep

theorem switchStatement_gives : Gives P (switchStatement g start) (always Node.Genuine) := by
  unfold switchStatement
  exact .step fun _ => .bind condition_gives fun subject => .bind switchClauses_gives fun clauses =>
    .finish fun _ ha => ⟨rfl, rfl, .nil, .cons ha.1.2 ha.2⟩

theorem otherStatement_gives : Gives P (otherStatement g start) (always Node.Genuine) :=
  .stay fun _ => .ite (fun _ => declaration_gives) fun _ => .stay fun _ =>
    .ite (fun _ => labeledStatement_gives) fun _ => expressionStatement_gives

theorem statementInner_gives : Gives P (statementInner g) (always Node.Genuine) := by
  unfold statementInner
  refine .stay fun start => .stay fun k => ?_
  split
  · exact .step fun _ => .finish fun _ _ => ⟨rfl, rfl, .nil, .nil⟩
  · exact .bind block_gives fun body => .finish fun _ ha => ⟨rfl, rfl, .nil, .one ha.2⟩
  · exact variableStatement_gives
  · exact .stay fun _ => .ite (fun _ => variableStatement_gives) fun _ => expressionStatement_gives
  · exact .stay fun _ => .ite (fun _ => otherStatement_gives) fun _ => variableStatement_gives
  iterate 2
    exact .stay fun _ => .ite (fun _ => variableStatement_gives) fun _ => otherStatement_gives
  iterate 3
    exact declaration_gives
  · exact ifStatement_gives
  · exact doStatement_gives
  · exact whileStatement_gives
  · exact forStatement_gives
  · exact jumpStatement_gives fun _ h => ⟨rfl, rfl, .map h, .nil⟩
  · exact jumpStatement_gives fun _ h => ⟨rfl, rfl, .map h, .nil⟩
  · exact returnStatement_gives
  · exact withStatement_gives
  · exact switchStatement_gives
  · exact throwStatement_gives
  · exact tryStatement_gives
  · exact debuggerStatement_gives
  · exact otherStatement_gives

theorem statement_gives : Gives P (statement g) (always Node.Genuine) :=
  .nested statementInner_gives

end

end Erasure.Parse
