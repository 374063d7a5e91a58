import Erasure.Proofs.Parse.Spans.Expressions
import Erasure.Proofs.Token.Apart

/-!
The spans of imports, exports, declarations and statements, and so of the whole grammar.
-/

namespace Erasure

namespace Parse

instance : Bearer ExportName := ⟨fun name => name.quotes.map StringLiteral.toNode⟩

instance : Bearer SpecifierNames := ⟨fun names => nodes names.property? ++ nodes names.name⟩

instance : Bearer ImportSpecifier := ⟨fun specifier => specifier.quotes.map StringLiteral.toNode⟩

instance : Bearer ExportSpecifier := ⟨fun specifier => specifier.quotes.map StringLiteral.toNode⟩

instance : Bearer ImportBindings := ⟨fun bindings => bindings.quotes.map StringLiteral.toNode⟩

instance : Bearer ImportClause := ⟨fun clause => clause.quotes.map StringLiteral.toNode⟩

instance : Bearer ExportClause := ⟨fun clause => clause.quotes.map StringLiteral.toNode⟩

instance : Bearer ModuleReference := ⟨fun reference => reference.quotes.map StringLiteral.toNode⟩

@[simp] theorem nodes_identifierName (name : Identifier) :
    nodes (ExportName.identifier name) = [] := rfl

@[simp] theorem nodes_stringName (literal : StringLiteral) :
    nodes (ExportName.string literal) = [literal.toNode] := rfl

@[simp] theorem nodes_specifierNames (names : SpecifierNames) :
    nodes names = nodes names.property? ++ nodes names.name := rfl

@[simp] theorem nodes_importSpecifier (specifier : ImportSpecifier) :
    nodes specifier = nodes specifier.property? := List.map_flatMap

@[simp] theorem nodes_exportSpecifier (specifier : ExportSpecifier) :
    nodes specifier = nodes specifier.property? ++ nodes specifier.name :=
  List.map_append.trans (congrArg (· ++ nodes specifier.name) List.map_flatMap)

@[simp] theorem nodes_allBindings (name : Identifier) : nodes (ImportBindings.all name) = [] := rfl

@[simp] theorem nodes_namedBindings (specifiers : List ImportSpecifier) :
    nodes (ImportBindings.named specifiers) = nodes specifiers := List.map_flatMap

@[simp] theorem nodes_importClause (clause : ImportClause) :
    nodes clause = nodes clause.bindings? := List.map_flatMap

@[simp] theorem nodes_allClause (name : ExportName) : nodes (ExportClause.all name) = nodes name :=
    rfl

@[simp] theorem nodes_namedClause (specifiers : List ExportSpecifier) :
    nodes (ExportClause.named specifiers) = nodes specifiers := List.map_flatMap

@[simp] theorem nodes_external (specifier : StringLiteral) :
    nodes (ModuleReference.external specifier) = [specifier.toNode] := rfl

@[simp] theorem nodes_entity (name : EntityName) : nodes (ModuleReference.entity name) = [] := rfl

variable {start : Nat} {passed : Bool} {held : List Node}

instance : Spans start false [] exportName := by
  unfold exportName
  exact .step fun _ => .ite (fun _ => .take fun literal => .pure) fun _ => .step fun _ => .pure

theorem specifierAfterType_spans (word : ExportName) :
    Spans start passed (nodes word) (specifierAfterType word) := by
  unfold specifierAfterType
  refine .step fun hasAs => .ite (fun _ => ?_) fun _ => ?_
  · refine .step fun firstAs => .step fun hasAs => .ite (fun _ => ?_) fun _ => ?_
    · refine .step fun secondAs => .step fun isName => .ite (fun _ => ?_) fun _ => .pure
      exact .take fun name => .pure
    · refine .step fun isName => .ite (fun _ => ?_) fun _ => .pure
      exact .take fun name => .pure
  · refine .step fun isName => .step fun isString => .ite (fun _ => ?_) fun _ => .pure
    exact .take fun name => .pure

instance : Spans start false [] firstNames := by
  unfold firstNames
  refine .take fun first => .ite (fun _ => ?_) fun _ => .pure
  exact (specifierAfterType_spans first).weaken id (by simp)

instance : Spans start false [] specifierNames := by
  unfold specifierNames
  refine .take fun ⟨names, canRename⟩ => .ite (fun _ => .step fun _ => .ite (fun _ => ?_) fun _ =>
    ?_)
    fun _ => ?_
  · exact .take fun name => .pure
  · exact .pure
  · exact .pure

section
variable {α : Type} [Bearer α] (element : Parse α) [Spans start false [] element]

instance : Spans start false [] (specifierStep element) := by
  unfold specifierStep
  refine .step fun _ => .ite (fun _ => .pure) fun _ => .step fun _ => .step fun _ =>
    .ite (fun _ => .error) fun _ => .take fun x => .step fun _ => .pure

instance [Proceeds element] [TakesName element] : Spans start false [] (specifierList element) := by
  unfold specifierList
  exact .step fun _ => .take fun elements => .step fun _ => .pure

end

instance : Spans start false [] importSpecifier := by
  unfold importSpecifier
  refine .step fun start => .take fun names => .step fun name => .step fun id => .step fun _ =>
    .pure ?_
  simp

instance : Spans start false [] exportSpecifier := by
  unfold exportSpecifier
  exact .step fun start => .take fun names => .step fun id => .step fun _ => .pure

variable {g : Grammar} [hg : Spanning g]

instance : Spans start false [] (importAttribute g) := by
  unfold importAttribute
  exact .pos fun start => .step fun name => .move fun _ => .step fun _ => .node fun value =>
    .finish [value]

instance : Spans start false [] (importAttributes? g) := by
  have : Proceeds (importAttribute g) := proceeds g
  unfold importAttributes?
  refine .pos fun start => .step fun keyword => .step fun _ => .ite (fun _ => .pure) fun _ => ?_
  exact .move fun _ => .take fun elements => .grow (.finish elements) fun _ => .pure

instance : Spans start false [] importBindings? := by
  unfold importBindings?
  refine .step fun _ => .ite (fun _ => ?_) fun _ => .step fun _ => .ite (fun _ => .error) fun _ =>
    ?_
  · exact .step fun _ => .step fun name => .pure
  · exact .take fun specifiers => .pure

instance : Spans start false [] moduleReference := by
  unfold moduleReference
  refine .step fun _ => .ite (fun _ => ?_) fun _ => .step fun name => .pure
  exact .step fun _ => .step fun _ => .take fun specifier => .step fun _ => .pure

theorem importEqualsRest_spans (ms : Modifiers) (isTypeOnly : Bool) (name : Identifier) :
    Spans start passed [] (importEqualsRest start ms isTypeOnly name) := by
  unfold importEqualsRest
  exact .move fun _ => .take fun reference => .step fun _ => .finish (nodes reference) (by simp)
    (List.append_nil _)

instance (name? : Option Identifier) : Spans start false [] (bindingsAfter? name?) := by
  unfold bindingsAfter?
  exact .ite (fun _ => inferInstance) fun _ => .step fun _ => .ite (fun _ => inferInstance)
    fun _ => .pure

theorem pieces_importStmt (ms : Modifiers) (clause : Option ImportClause)
    (specifier : StringLiteral)
    (attributes : Option Node) : (Form.importStmt ms clause specifier attributes).pieces =
      nodes clause ++ [specifier.toNode] ++ attributes.toList := by
  show (clause.toList.flatMap ImportClause.quotes ++ [specifier]).map StringLiteral.toNode ++ _ = _
  rw [List.map_append, List.map_flatMap]
  rfl

theorem importFrom_spans (clauseStart : Nat) (ms : Modifiers) (isTypeOnly : Bool)
    (name? : Option Identifier) :
    Spans start passed [] (importFrom g start clauseStart ms isTypeOnly name?) := by
  unfold importFrom
  refine .take fun bindings? => .step fun id => .step fun _ => .step fun _ =>
    .take fun specifier => .behind specifier.toNode (.take fun attributes => .step fun _ => ?_)
  exact .finish _ (by simp) (pieces_importStmt ..)

theorem importClauseRest_spans (ms : Modifiers) :
    Spans start passed [] (importClauseRest g start ms) := by
  unfold importClauseRest
  refine .step fun clauseStart => .step fun x => ?_
  obtain ⟨name?, isTypeOnly⟩ := x
  cases name? with
  | none => exact importFrom_spans clauseStart ms isTypeOnly none
  | some name =>
      refine .step fun _ => .ite (fun _ => importEqualsRest_spans ms isTypeOnly name) fun _ => ?_
      exact importFrom_spans clauseStart ms isTypeOnly (some name)

theorem importDeclaration_spans (ms : Modifiers) :
    Spans start passed [] (importDeclaration g start ms) := by
  unfold importDeclaration
  refine .step fun _ => .step fun _ => .ite (fun _ => ?_) fun _ => importClauseRest_spans ms
  refine .take fun specifier => .behind specifier.toNode (.take fun attributes => .step fun _ => ?_)
  exact .finish ([specifier.toNode] ++ attributes.toList)

instance : Spans start false [] exportClause := by
  unfold exportClause
  refine .step fun _ => .ite (fun _ => ?_) fun _ => ?_
  · refine .take fun name => .step fun _ => .take fun specifier => .pure ?_
    cases name <;> simp
  · exact .take fun specifiers => .take fun specifier => .pure

instance (specifier : Option StringLiteral) :
    Spans start false [] (attributesAfter? g specifier) := by
  unfold attributesAfter?
  exact .ite (fun _ => inferInstance) fun _ => .pure

theorem pieces_exportStmt (ms : Modifiers) (isTypeOnly : Bool) (clause : Option ExportClause)
    (specifier : Option StringLiteral) (attributes : Option Node) :
    (Form.exportStmt ms isTypeOnly clause specifier attributes).pieces =
      nodes clause ++ nodes specifier ++ attributes.toList := by
  show List.map StringLiteral.toNode
    (clause.toList.flatMap ExportClause.quotes ++ specifier.toList) ++ _ = _
  rw [List.map_append, List.map_flatMap, List.map_eq_flatMap]
  rfl

theorem exportDeclaration_spans (ms : Modifiers) :
    Spans start true [] (exportDeclaration g start ms) := by
  unfold exportDeclaration
  refine .step fun isTypeOnly => .take fun source => .take fun attributes =>
    .step fun _ => ?_
  exact .finish _ (by simp) (pieces_exportStmt ..)

theorem exportAssignment_spans (isEquals : Bool) :
    Spans start passed [] (exportAssignment g start isEquals) := by
  unfold exportAssignment
  exact .step fun _ => .node fun expression => .step fun _ => .finish [expression]

theorem exportForm_spans (ms : Modifiers) : Spans start passed [] (exportForm g start ms) := by
  unfold exportForm
  refine .move fun _ => .step fun k => ?_
  split
  · exact exportAssignment_spans false
  · exact exportAssignment_spans true
  · exact .step fun _ => .step fun _ => .step fun name => .step fun _ => .finish []
  · exact exportDeclaration_spans ms

instance : Spans start false [] (declarationHead g) := by
  unfold declarationHead
  refine .take fun ds => .step fun ms => .step fun _ => .ite (fun _ => ?_) fun _ => .pure
  exact .take fun more => .step fun _ => .pure

theorem functionDeclaration_spans (ms : Modifiers) :
    Spans start passed [] (functionDeclaration g start ms) := by
  unfold functionDeclaration
  exact .step fun _ => .step fun isGenerator => .step fun name => .node fun func => .finish [func]

theorem classDeclaration_spans (ds : List Node) (ms : Modifiers) :
    Spans start passed ds (classDeclaration g start ds ms) := by
  unfold classDeclaration
  refine .step fun keyword => .grow (classLike_spans ds ms) fun cls => ?_
  exact .ite (fun _ => .step fun _ => .finish [cls]) fun _ => .finish [cls]

instance : Spans start false [] (interfaceBases g) := by
  unfold interfaceBases
  exact .step fun _ => .ite (fun _ => inferInstance) fun _ => .pure

theorem interfaceDeclaration_spans (ms : Modifiers) :
    Spans start passed [] (interfaceDeclaration g start ms) := by
  unfold interfaceDeclaration
  refine .move fun _ => .step fun name => .take fun typeParameters => .take fun bases =>
    .take fun members => ?_
  exact .finish (typeParameters.getD [] ++ bases ++ members)

theorem typeAlias_spans (ms : Modifiers) : Spans start passed [] (typeAlias g start ms) := by
  unfold typeAlias
  refine .step fun _ => .step fun name => .take fun typeParameters => .step fun _ =>
    .node fun type => .step fun _ => ?_
  exact .finish (typeParameters.getD [] ++ [type])

instance : Spans start false [] (enumMember g) := by
  unfold enumMember
  exact .pos fun start => .node fun name => .take fun initializer =>
    .finish (name :: initializer.toList)

instance : Spans start false [] (enumMemberStep g) := by
  unfold enumMemberStep
  exact .step fun _ => .ite (fun _ => .pure) fun _ => .step fun _ => .ite (fun _ => .error) fun _ =>
    .node fun m => .step fun _ => .pure

instance : Spans start false [] (enumMembers g) := by
  unfold enumMembers
  exact .step fun _ => .ite (fun _ => .pure) fun _ => .take fun members => .step fun _ => .pure

theorem enumDeclaration_spans (ms : Modifiers) :
    Spans start passed [] (enumDeclaration g start ms) := by
  unfold enumDeclaration
  exact .move fun _ => .step fun name => .take fun members => .finish members

instance : Spans start false [] (moduleStatements g) := by
  unfold moduleStatements
  exact .step fun _ => .ite (fun _ => .take fun statements => .step fun _ => .pure) fun _ => .pure

instance : Moves (moduleStatements g) := by
  have : Proceeds (statementList g (· = .closeBrace)) := proceeds g
  unfold moduleStatements
  infer_instance

theorem moduleStatements_inOrder {P : Place → Prop} :
    Gives P (moduleStatements g) fun statements _ => InOrder statements := by
  unfold moduleStatements
  refine .any (.step fun found => .ite (fun _ => ?_) fun _ => .pure fun _ _ => .nil)
  exact .forget collect_inOrder fun statements => .step fun _ => .pure fun _ h => h

instance : Spans start false [] (moduleBlock g) := by
  unfold moduleBlock
  exact .pos fun start => .drawOn moduleStatements_inOrder fun statements h =>
    .finishOrdered statements h

instance (ms : Modifiers) : Spans start false [] (namespaceContent g ms) := by
  unfold namespaceContent
  exact .step fun _ => .ite (fun _ => .pos fun start => inferInstance) fun _ => inferInstance

theorem namespaceBody_spans (ms : Modifiers) : Spans start passed [] (namespaceBody g start ms) :=
    by
  unfold namespaceBody
  exact .step fun name => .node fun body => .finish [body]

instance : Spans start false [] (stringModuleBody? g) := by
  unfold stringModuleBody?
  exact .step fun _ => .ite (fun _ => .node fun _ => .pure) fun _ => .step fun _ => .pure

theorem stringModule_spans (ms : Modifiers) : Spans start passed [] (stringModule g start ms) := by
  unfold stringModule
  exact .take fun name => .behind name.toNode (.take fun body =>
    .finish ([name.toNode] ++ body.toList))

theorem moduleDeclaration_spans (ms : Modifiers) :
    Spans start passed [] (moduleDeclaration g start ms) := by
  unfold moduleDeclaration
  refine .step fun _ => .ite (fun _ => ?_) fun _ => .step fun _ => .step fun _ =>
    .ite (fun _ => stringModule_spans ms) fun _ => namespaceBody_spans ms
  exact .step fun name => .node fun body => .finish [body]

theorem moduleStatement_spans (ms : Modifiers) :
    Spans start passed [] (moduleStatement g start ms) := by
  unfold moduleStatement
  exact .grow (moduleDeclaration_spans ms) fun declaration => .finish [declaration]

theorem declarationRest_spans (ds : List Node) (ms : Modifiers) :
    Spans start passed ds (declarationRest g start ds ms) := by
  have hplain {p : Parse Node} (h : Spans start passed [] p) : Spans start passed ds p :=
    h.weaken id (List.nil_subset ds)
  unfold declarationRest
  refine .step fun k => ?_
  split
  iterate 5
    exact hplain (variableStatement_spans ms)
  · exact hplain (functionDeclaration_spans ms)
  · exact classDeclaration_spans ds ms
  · exact hplain (interfaceDeclaration_spans ms)
  · exact hplain (typeAlias_spans ms)
  · exact hplain (enumDeclaration_spans ms)
  iterate 3
    exact hplain (moduleStatement_spans ms)
  · exact hplain (importDeclaration_spans ms)
  · exact hplain (exportForm_spans ms)
  · exact .ite (fun _ => .fresh inferInstance) fun _ => .error

instance : Spans start false [] (declaration g) := by
  unfold declaration
  refine .pos fun start => .take fun ⟨ds, ms⟩ => .step fun _ => .step fun _ => .withContext _ ?_
  exact (declarationRest_spans ds ms).weaken id (by simp)

theorem expressionStatement_spans : Spans start passed [] (expressionStatement g start) := by
  unfold expressionStatement
  exact .node fun e => .step fun _ => .finish [e]

theorem debuggerStatement_spans : Spans start passed [] (debuggerStatement start) := by
  unfold debuggerStatement
  exact .move fun _ => .step fun _ => .finish []

theorem jumpStatement_spans {form : Option Identifier → Form}
    (hparts : ∀ label, (form label).pieces = [] := by exact fun _ => rfl)
    (hliteral : ∀ label, (form label).literal? = none := by exact fun _ => rfl)
    (hstatements : ∀ label, (form label).statements = [] := by exact fun _ => rfl) :
    Spans start passed [] (jumpStatement start form) := by
  unfold jumpStatement
  exact .move fun _ => .step fun label => .step fun _ =>
    .finish [] (by simp) (hparts _) (hliteral _) (hstatements _)

theorem returnStatement_spans : Spans start passed [] (returnStatement g start) := by
  unfold returnStatement
  exact .move fun _ => .take fun value => .step fun _ => .finish value.toList

theorem throwStatement_spans : Spans start passed [] (throwStatement g start) := by
  unfold throwStatement
  exact .step fun _ => .node fun value => .step fun _ => .finish [value]

theorem labeledStatement_spans : Spans start passed [] (labeledStatement g start) := by
  unfold labeledStatement
  exact .step fun label => .step fun _ => .node fun body => .finish [body]

instance : Spans start false [] (condition g) := by
  unfold condition
  exact .step fun _ => .node fun e => .step fun _ => .pure

theorem ifStatement_spans : Spans start passed [] (ifStatement g start) := by
  unfold ifStatement
  exact .step fun _ => .node fun test => .node fun thenBranch => .take fun elseBranch =>
    .finish (test :: thenBranch :: elseBranch.toList)

theorem doStatement_spans : Spans start passed [] (doStatement g start) := by
  unfold doStatement
  exact .step fun _ => .node fun body => .step fun _ => .node fun test => .step fun _ =>
    .finish [body, test]

theorem whileStatement_spans : Spans start passed [] (whileStatement g start) := by
  unfold whileStatement
  exact .step fun _ => .node fun test => .node fun body => .finish [test, body]

theorem withStatement_spans : Spans start passed [] (withStatement g start) := by
  unfold withStatement
  exact .step fun _ => .node fun object => .node fun body => .finish [object, body]

instance : Spans start false [] (loopVariables g) := by
  unfold loopVariables
  exact .step fun declares => .withContext _ (.ite (fun _ => inferInstance) fun _ => inferInstance)

instance : Spans start false [] (forInitializer? g) :=
    inferInstanceAs (Spans start false [] (unless? _ _))

theorem forOfRest_spans (isAwait : Bool) (initializer : Node) :
    Spans start passed [initializer] (forOfRest g start isAwait initializer) := by
  unfold forOfRest
  exact .step fun _ => .node fun source => .step fun _ => .node fun body =>
    .finish [initializer, source, body]

theorem forInRest_spans (initializer : Node) :
    Spans start passed [initializer] (forInRest g start initializer) := by
  unfold forInRest
  exact .node fun source => .step fun _ => .node fun body => .finish [initializer, source, body]

theorem forRest_spans (initializer : Option Node) :
    Spans start passed initializer.toList (forRest g start initializer) := by
  unfold forRest
  refine .step fun _ => .step fun _ => .take fun test => .step fun _ => .take fun incrementor =>
    .step fun _ => .node fun body => ?_
  exact .finish (initializer.toList ++ test.toList ++ incrementor.toList ++ [body])

theorem forStatement_spans : Spans start passed [] (forStatement g start) := by
  unfold forStatement
  refine .step fun _ => .step fun isAwait => .step fun _ => .take fun initializer? => ?_
  cases initializer? with
  | none => exact forRest_spans none
  | some initializer =>
      refine .step fun _ => .ite (fun _ => forOfRest_spans isAwait initializer) fun _ => ?_
      refine .step fun _ => .ite (fun _ => forInRest_spans initializer) fun _ => ?_
      exact forRest_spans (some initializer)

instance : Spans start false [] (catchVariable g) := by
  unfold catchVariable
  refine .pos fun start => .node fun name => .take fun type => ?_
  exact .grow (.finish (name :: type.toList ++ [])) fun declaration => .step fun _ => .pure

instance : Spans start false [] (catchClause g) := by
  unfold catchClause
  exact .pos fun start => .step fun _ => .take fun binding? => .node fun body =>
    .finish (binding?.toList ++ [body])

theorem tryStatement_spans : Spans start passed [] (tryStatement g start) := by
  unfold tryStatement
  exact .step fun _ => .node fun body => .take fun handler => .take fun finalizer => .step fun _ =>
    .finish (body :: handler.toList ++ finalizer.toList)

instance : Spans start false [] (caseTest? g) := by
  unfold caseTest?
  exact .step fun _ => .ite (fun _ => .node fun test => .pure) fun _ => .step fun _ => .pure

instance : Moves (caseTest? g) where
  proceeds := proceeds g
  gives n := by
    have : Proceeds (expressionAllowIn g) := proceeds g
    have hadvance : Moves (advance >>= fun _ => pure (none : Option Node)) := inferInstance
    unfold caseTest?
    refine .forget (Gives.accept fun _ ha => ha) fun found => ?_
    cases found
    · exact hadvance.gives n
    · exact .passed n

instance : Spans start false [] (caseClause g) := by
  unfold caseClause
  exact .pos fun start => .draw fun test => .step fun _ => .step fun _ =>
    .takeOn collect_inOrder fun statements h => .finishOrdered (test.toList ++ statements) h

theorem switchStep_spans (rev : List Node) : Spans start passed rev (switchStep g rev) := by
  unfold switchStep
  refine .step fun _ => .ite (fun _ => .pure) fun _ => .step fun _ => .ite (fun _ => .error)
    fun _ => ?_
  exact .take fun clause => .ite (fun _ => .step fun _ => .pure) fun _ => .pure

instance : Spans start false [] (switchClauses g) := by
  unfold switchClauses
  refine .step fun _ => .ite (fun _ => .pure) fun _ => .bind (.loop (by simp) fun rev => ?_)
    fun rev =>
    .step fun _ => .pure
  exact (switchStep_spans rev).weaken id (by simp)

theorem switchStatement_spans : Spans start passed [] (switchStatement g start) := by
  unfold switchStatement
  exact .step fun _ => .node fun subject => .take fun clauses => .finish (subject :: clauses)

theorem otherStatement_spans : Spans start false [] (otherStatement g start) := by
  unfold otherStatement
  exact .step fun _ => .ite (fun _ => inferInstance) fun _ => .step fun _ =>
    .ite (fun _ => labeledStatement_spans) fun _ => expressionStatement_spans

instance : Spans start false [] (statementInner g) := by
  unfold statementInner
  refine .pos fun start => .step fun k => ?_
  split
  · exact .move fun _ => .finish []
  · exact .node fun body => .finish [body]
  · exact variableStatement_spans {}
  · exact .step fun _ => .ite (fun _ => variableStatement_spans {}) fun _ =>
      expressionStatement_spans
  · exact .step fun _ => .ite (fun _ => otherStatement_spans) fun _ => variableStatement_spans {}
  iterate 2
    exact .step fun _ => .ite (fun _ => variableStatement_spans {}) fun _ => otherStatement_spans
  iterate 3
    infer_instance
  · exact ifStatement_spans
  · exact doStatement_spans
  · exact whileStatement_spans
  · exact forStatement_spans
  iterate 2
    exact jumpStatement_spans
  · exact returnStatement_spans
  · exact withStatement_spans
  · exact switchStatement_spans
  · exact throwStatement_spans
  · exact tryStatement_spans
  · exact debuggerStatement_spans
  · exact otherStatement_spans

instance : Spans start false [] (statement g) := inferInstanceAs (Spans start false [] (nested _ _))

instance : Spanning (rule g) where
  spans {start nt} h := by
    cases nt with
    | namespaceBody first ms =>
        obtain rfl : first = start := h
        exact namespaceBody_spans ms
    | _ =>
        unfold rule
        infer_instance

instance : Spanning exhausted where
  spans {start nt} _ := by
    have : Proceeds (substitute nt) := by cases nt <;> unfold substitute <;> infer_instance
    exact .error

instance (fuel : Nat) : Spanning (grammar fuel) := by
  induction fuel with
  | zero => exact inferInstanceAs (Spanning exhausted)
  | succ fuel ih => exact inferInstanceAs (Spanning (rule (grammar fuel)))

/-- As long as there is no lexical error, the current token starts at a place of the text. -/
theorem Proceeds.whole {α : Type} {p : Parse α} (h : Proceeds p) (s : ParseState)
    (hr : s.place.Ready) (hs : s.scanner.errorsRev = [] → s.scanner.Whole)
    (he : (p s).2.scanner.errorsRev = []) : (p s).2.scanner.Whole := by
  refine h.keeps (P := fun a => a.scanner.errorsRev = [] → a.scanner.Whole) ?_ ?_ s hr hs he
  · intro s hr hs he
    have hbefore : s.scanner.errorsRev <:+ [] := he ▸ (Scanner.scan_spec s.scanner).1.errors
    exact (hs (List.suffix_nil.mp hbefore)).scan hr.scanner he
  · intro a t hrereads hs he
    have hbefore : a.scanner.errorsRev <:+ [] := he ▸ hrereads.errors
    exact (hs (List.suffix_nil.mp hbefore)).rereads hrereads

/-- The statements of a file lie in its text, one behind the other. -/
theorem lies_file (fileName source : String)
    (h : (file (ParseState.ofString fileName source)).2.Quiet) :
    InOrder (file (ParseState.ofString fileName source)).1 ∧
      ∀ n ∈ (file (ParseState.ofString fileName source)).1,
        n.Lies source 0 source.utf8ByteSize := by
  have hready := ready_firstState fileName source
  have hsource := source_firstState fileName source
  have hwhole : (firstState fileName source).scanner.errorsRev = [] →
      (firstState fileName source).scanner.Whole :=
    Scanner.whole_scan (Cursor.sound_ofString source)
  rw [file_eq] at h ⊢
  generalize firstState fileName source = s at *
  generalize fuelFor source.utf8ByteSize = fuel at *
  have hlist : Spans 0 false [] (statementList (grammar fuel) (· = .endOfFile)) := inferInstance
  have hfollow := hlist.proceeds.follows s hready
  have horder : Gives (fun _ => True) (statementList (grammar fuel) (· = .endOfFile))
      fun statements _ => InOrder statements :=
    collect_inOrder
  refine ⟨(horder s hready fun _ => trivial).2 h, fun n hn => ?_⟩
  have hlies := (hlist.gives s hready fun _ => ⟨Nat.zero_le _, nofun⟩).2 h n (by simpa using hn)
  have hend := (hlist.proceeds.whole s hready hwhole h.lexical).start_le_size
  have hsame : (statementList (grammar fuel) (· = .endOfFile) s).2.place.scanner.source = source :=
    hfollow.grows.source.trans hsource
  rw [hsame] at hlies
  rw [hfollow.grows.source, hsource] at hend
  exact hlies.mono le_rfl (hfollow.ready.prevEnd_le.trans hend)

end Parse
end Erasure
