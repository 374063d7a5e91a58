import Mathlib.Data.List.Nodup
import Erasure.Proofs.Parse.Numbering.Expressions

/-!
The numbers of imports, exports, declarations and statements, and of the whole grammar. The local
name of an import that is a string takes the number of the string, which is given up. All numbers in
the tree of a file differ, and all of them have been given out when the file ends. So they tell the
nodes of a file apart, although the parser reads some parts twice, and makes some nodes from parts
of others. No two jumps of a file start at one place.
-/

namespace Erasure

namespace Parse

instance : Marked SpecifierNames := ⟨fun names => marks names.property? ++ marks names.name⟩

@[simp]
theorem marks_specifierNames (names : SpecifierNames) :
    marks names = marks names.property? ++ marks names.name := rfl

instance : Draws [] exportName := by
  unfold exportName
  refine .step fun _ => .ite ?_ ?_
  · exact .first fun _ => .pure fun _ => by simp
  · exact .first fun _ => .pure fun _ => by simp

theorem specifierAfterType_draws (word : ExportName) :
    Draws (marks word) (specifierAfterType word) := by
  unfold specifierAfterType
  refine .step fun hasAs => .ite ?_ ?_
  · refine .take fun firstAs => .step fun hasAs => .ite ?_ ?_
    · refine .take fun secondAs => .step fun isName => .ite ?_ ?_
      · exact .take fun name => .pure fun _ => by simp [List.count_cons]; omega
      · exact .pure fun _ => by simp [List.count_cons]
    · refine .step fun isName => .ite ?_ (.pure fun _ => by simp)
      exact .take fun name => .pure fun _ => by simp [List.count_cons]
  · refine .step fun isName => .step fun isString => .ite ?_ (.pure fun _ => by simp)
    exact .take fun name => .pure fun _ => by simp

instance : Draws [] firstNames := by
  unfold firstNames
  exact .first fun first => .ite (specifierAfterType_draws first) (.pure fun _ => by simp)

instance : Draws [] specifierNames := by
  unfold specifierNames
  refine .first fun ⟨names, canRename⟩ => .ite ?_ (.pure fun _ => by simp)
  refine .step fun hasAs => .ite ?_ (.pure fun _ => by simp)
  exact .take fun name => .pure fun _ => by simp

section
variable {α : Type} [Marked α] (element : Parse α) [Draws [] element]

instance : Draws [] (specifierStep element) := by
  unfold specifierStep
  refine .step fun atEnd => .ite (.pure fun _ => by simp) ?_
  refine .step fun isName => .step fun isString => .ite ?_ ?_
  · refine .step fun reported => .step fun k => .ite (.pure fun _ => by simp) ?_
    exact .step fun advanced => .pure fun _ => by simp
  · exact .first fun x => .step fun ended => .pure fun _ => by simp

instance : Draws [] (specifierList element) := by
  unfold specifierList
  exact .step fun _ => .first fun elements => .step fun _ => .pure fun _ => by simp

end

theorem localName_draws (name : ExportName) : Draws (marks name) (localName name) := by
  cases name with
  | identifier name => exact .pure fun _ => by simp
  | string literal => exact .step fun _ => .pure fun _ => by simp

instance : Draws [] importSpecifier := by
  unfold importSpecifier
  refine .step fun start => .first fun names => ?_
  refine .bind (marks names.property?) (localName_draws names.name) (fun name =>
    .freshId fun id => .step fun _ => .pure fun _ => ?_) fun _ => ?_
  · simp [List.count_cons]
    omega
  · simp
    omega

instance : Draws [] exportSpecifier := by
  unfold exportSpecifier
  refine .step fun start => .first fun names => .freshId fun id => .step fun _ => .pure fun _ => ?_
  simp [List.count_cons, Nat.add_assoc]

section
variable {g : Grammar} [hg : Numbering g]

instance : Draws [] (importAttribute g) := by
  unfold importAttribute
  refine .step fun start => .step fun name => .step fun _ => .step fun _ => .first fun value =>
    .finish fun _ => ?_
  simp [Form.directChildren]

instance : Draws [] (importAttributes? g) := by
  unfold importAttributes?
  refine .step fun start => .step fun keyword => .step fun _ => .ite (.pure fun _ => by simp) ?_
  refine .step fun _ => .first fun elements => .spend (.finish fun _ => ?_) fun _ =>
    .pure fun _ => by simp
  simp [Form.directChildren]

instance : Draws [] importBindings? := by
  unfold importBindings?
  refine .step fun isAll => .ite ?_ (.step fun isList => .ite ?_ ?_)
  · exact .step fun required => .first fun name => .pure fun _ => by simp
  · exact .step fun reported => .pure fun _ => by simp
  · exact .first fun specifiers => .pure fun _ => by simp

instance : Draws [] moduleReference := by
  unfold moduleReference
  refine .step fun isCall => .ite ?_ (.first fun name => .pure fun _ => by simp)
  refine .step fun name => .step fun opened => .first fun specifier => ?_
  exact .step fun closed => .pure fun _ => by simp

theorem importEqualsRest_draws (start : Nat) (ms : Modifiers) (isTypeOnly : Bool)
    (name : Identifier) : Draws (marks name) (importEqualsRest start ms isTypeOnly name) := by
  unfold importEqualsRest
  refine .step fun _ => .take fun reference => .step fun _ => .finish fun _ => ?_
  simp [Form.directChildren]

instance : Draws [] identifier? := inferInstanceAs (Draws [] (when? _ _))

instance (name? : Option Identifier) : Draws [] (bindingsAfter? name?) := by
  unfold bindingsAfter?
  exact .ite inferInstance (.step fun _ => .ite inferInstance (.pure fun _ => by simp))

theorem importFrom_draws (start clauseStart : Nat) (ms : Modifiers) (isTypeOnly : Bool)
    (name? : Option Identifier) :
    Draws (marks name?) (importFrom g start clauseStart ms isTypeOnly name?) := by
  unfold importFrom
  refine .take fun bindings? => .freshId fun id => .step fun state => .step fun required => ?_
  refine .take fun specifier => .take fun attributes => .step fun ended => .finish fun _ => ?_
  simp [Form.directChildren, List.count_cons]
  omega

instance : Draws [] importName? := by
  unfold importName?
  refine .first fun first => .ite ?_ (.pure fun _ => by simp)
  refine .step fun isTypeOnly => .ite ?_ (.pure fun _ => by simp)
  exact .take fun name => .pure fun _ => by simp

instance (start : Nat) (ms : Modifiers) : Draws [] (importClauseRest g start ms) := by
  unfold importClauseRest
  refine .step fun clauseStart => .first fun ⟨name?, isTypeOnly⟩ => ?_
  have hfrom : Draws (marks (name?, isTypeOnly))
      (importFrom g start clauseStart ms isTypeOnly name?) :=
    (importFrom_draws start clauseStart ms isTypeOnly name?).weaken fun _ => by simp
  cases name? with
  | none => exact hfrom
  | some name =>
      refine .step fun _ => .ite ?_ hfrom
      exact (importEqualsRest_draws start ms isTypeOnly name).weaken fun _ => by simp

instance (start : Nat) (ms : Modifiers) : Draws [] (importDeclaration g start ms) := by
  unfold importDeclaration
  refine .step fun _ => .step fun _ => .ite ?_ inferInstance
  refine .first fun specifier => .take fun attributes => .step fun _ => .finish fun _ => ?_
  simp [Form.directChildren]

instance : Draws [] exportClause := by
  unfold exportClause
  refine .step fun _ => .ite ?_ ?_
  · refine .first fun name => .step fun _ => .take fun specifier => .pure fun _ => ?_
    cases name <;> simp
  · exact .first fun specifiers => .take fun specifier => .pure fun _ => by simp

instance (specifier : Option StringLiteral) : Draws [] (attributesAfter? g specifier) := by
  unfold attributesAfter?
  exact .ite inferInstance (.pure fun _ => by simp)

instance (start : Nat) (ms : Modifiers) : Draws [] (exportDeclaration g start ms) := by
  unfold exportDeclaration
  refine .step fun isTypeOnly => .first fun ⟨clause, specifier⟩ => .take fun attributes =>
    .step fun _ => .finish fun _ => ?_
  simp [Form.directChildren]

instance (start : Nat) (isEquals : Bool) : Draws [] (exportAssignment g start isEquals) := by
  unfold exportAssignment
  exact .step fun _ => .first fun expression => .step fun _ => .finish fun _ => by
    simp [Form.directChildren]

instance (start : Nat) (ms : Modifiers) : Draws [] (exportForm g start ms) := by
  unfold exportForm
  refine .step fun _ => .step fun k => ?_
  split
  · infer_instance
  · infer_instance
  · refine .step fun _ => .step fun _ => .first fun name => .step fun _ => .finish fun _ => ?_
    simp [Form.directChildren]
  · infer_instance

instance : Marked Modifiers := ⟨fun _ => []⟩

@[simp]
theorem marks_modifiers (ms : Modifiers) : marks ms = [] := rfl

instance : Draws [] (declarationHead g) := by
  unfold declarationHead
  refine .first fun ds => .step fun ms => .step fun _ => .ite ?_ (.pure fun _ => by simp)
  exact .take fun more => .step fun _ => .pure fun _ => by simp

instance (start : Nat) (ms : Modifiers) : Draws [] (functionDeclaration g start ms) := by
  unfold functionDeclaration
  refine .step fun _ => .step fun isGenerator => .first fun name => .take fun func =>
    .finish fun _ => ?_
  simp [Form.directChildren]

theorem classDeclaration_draws (start : Nat) (ds : List Node) (ms : Modifiers) :
    Draws (marks ds) (classDeclaration g start ds ms) := by
  unfold classDeclaration
  refine .step fun keyword => .spend (classLike_draws start ds ms) fun cls => ?_
  have hfinish : Draws (marks cls) (finish start (.classStmt cls)) :=
    .finish fun _ => by simp [Form.directChildren]
  exact .ite (.step fun _ => hfinish) hfinish

instance : Draws [] (interfaceBases g) := by
  unfold interfaceBases
  exact .step fun _ => .ite inferInstance (.pure fun _ => by simp)

instance (start : Nat) (ms : Modifiers) : Draws [] (interfaceDeclaration g start ms) := by
  unfold interfaceDeclaration
  refine .step fun _ => .first fun name => .take fun typeParameters => .take fun bases =>
    .take fun members => .finish fun _ => ?_
  simp [Form.directChildren]

instance (start : Nat) (ms : Modifiers) : Draws [] (typeAlias g start ms) := by
  unfold typeAlias
  refine .step fun _ => .first fun name => .take fun typeParameters => .step fun _ =>
    .take fun type => .step fun _ => .finish fun _ => ?_
  simp [Form.directChildren]

instance : Draws [] (enumMember g) := by
  unfold enumMember
  refine .step fun start => .first fun name => .take fun initializer => .finish fun _ => ?_
  simp [Form.directChildren]

instance : Draws [] (enumMemberStep g) := by
  unfold enumMemberStep
  refine .step fun atEnd => .ite (.pure fun _ => by simp) (.step fun isKey => .ite ?_ ?_)
  · refine .step fun reported => .step fun k => .ite (.pure fun _ => by simp) ?_
    exact .step fun advanced => .pure fun _ => by simp
  · exact .first fun m => .step fun ended => .pure fun _ => by simp

instance : Draws [] (enumMembers g) := by
  unfold enumMembers
  refine .step fun _ => .ite (.pure fun _ => by simp) ?_
  exact .first fun members => .step fun _ => .pure fun _ => by simp

instance (start : Nat) (ms : Modifiers) : Draws [] (enumDeclaration g start ms) := by
  unfold enumDeclaration
  refine .step fun _ => .first fun name => .take fun members => .finish fun _ => ?_
  simp [Form.directChildren]

instance : Draws [] (moduleStatements g) := by
  unfold moduleStatements
  refine .step fun _ => .ite ?_ (.pure fun _ => by simp)
  exact .first fun statements => .step fun _ => .pure fun _ => by simp

instance : Draws [] (moduleBlock g) := by
  unfold moduleBlock
  exact .step fun start => .first fun statements => .finish fun _ => by simp [Form.directChildren]

instance (ms : Modifiers) : Draws [] (namespaceContent g ms) := by
  unfold namespaceContent
  exact .step fun _ => .ite (.step fun _ => inferInstance) inferInstance

instance (start : Nat) (ms : Modifiers) : Draws [] (namespaceBody g start ms) := by
  unfold namespaceBody
  exact .first fun name => .take fun body => .finish fun _ => by simp [Form.directChildren]

instance : Draws [] (stringModuleBody? g) := by
  unfold stringModuleBody?
  refine .step fun _ => .ite ?_ (.step fun _ => .pure fun _ => by simp)
  exact .first fun _ => .pure fun _ => by simp

instance (start : Nat) (ms : Modifiers) : Draws [] (stringModule g start ms) := by
  unfold stringModule
  exact .first fun name => .take fun body => .finish fun _ => by simp [Form.directChildren]

instance (start : Nat) (ms : Modifiers) : Draws [] (moduleDeclaration g start ms) := by
  unfold moduleDeclaration
  refine .step fun isGlobal => .ite ?_ ?_
  · exact .first fun name => .take fun body => .finish fun _ => by simp [Form.directChildren]
  · exact .step fun advanced => .step fun isString => .ite inferInstance inferInstance

instance (start : Nat) (ms : Modifiers) : Draws [] (moduleStatement g start ms) := by
  unfold moduleStatement
  exact .first fun declaration => .finish fun _ => by simp [Form.directChildren]

theorem declarationRest_draws (start : Nat) (ds : List Node) (ms : Modifiers) :
    Draws (marks ds) (declarationRest g start ds ms) := by
  unfold declarationRest
  refine .step fun k => ?_
  split
  iterate 6
    exact .fresh inferInstance
  · exact classDeclaration_draws start ds ms
  iterate 8
    exact .fresh inferInstance
  · refine .ite (.fresh inferInstance) (.step fun _ => .finish fun _ => ?_)
    simp [Form.directChildren]

instance : Draws [] (declaration g) := by
  unfold declaration
  refine .step fun start => .first fun ⟨ds, ms⟩ => .step fun _ => .step fun _ => .withContext _ ?_
  exact (declarationRest_draws start ds ms).weaken fun _ => by simp

instance (start : Nat) : Draws [] (expressionStatement g start) := by
  unfold expressionStatement
  exact .first fun e => .step fun _ => .finish fun _ => by simp [Form.directChildren]

instance (start : Nat) : Draws [] (debuggerStatement start) := by
  unfold debuggerStatement
  exact .step fun _ => .step fun _ => .finish fun _ => by simp [Form.directChildren]

/-- The keyword of a jump is passed over, so that no other one starts there. -/
theorem jumpStatement_draws {start : Nat} {k : TokenKind} {form : Option Identifier → Form}
    (hk : k ≠ .endOfFile) (hform : ∀ label, marks (form label) = marks label)
    (hjump : ∀ label, (form label).jumpMarks start = [.jump start]) :
    DrawsFrom start k (jumpStatement start form) := by
  unfold jumpStatement
  refine .passes hk fun _ => .take fun label => .step fun _ => .finishJump fun _ => ?_
  rw [hform, hjump]

instance (start : Nat) : Draws [] (returnStatement g start) := by
  unfold returnStatement
  exact .step fun _ => .first fun value => .step fun _ => .finish fun _ => by
    simp [Form.directChildren]

instance (start : Nat) : Draws [] (throwStatement g start) := by
  unfold throwStatement
  exact .step fun _ => .first fun value => .step fun _ => .finish fun _ => by
    simp [Form.directChildren]

instance (start : Nat) : Draws [] (labeledStatement g start) := by
  unfold labeledStatement
  exact .first fun label => .step fun _ => .take fun body => .finish fun _ => by
    simp [Form.directChildren]

instance : Draws [] (condition g) := by
  unfold condition
  exact .step fun _ => .first fun e => .step fun _ => .pure fun _ => by simp

instance (start : Nat) : Draws [] (ifStatement g start) := by
  unfold ifStatement
  exact .step fun _ => .first fun test => .take fun thenBranch => .take fun elseBranch =>
    .finish fun _ => by simp [Form.directChildren]

instance (start : Nat) : Draws [] (doStatement g start) := by
  unfold doStatement
  exact .step fun _ => .first fun body => .step fun _ => .take fun test => .step fun _ =>
    .finish fun _ => by simp [Form.directChildren]

instance (start : Nat) : Draws [] (whileStatement g start) := by
  unfold whileStatement
  exact .step fun _ => .first fun test => .take fun body => .finish fun _ => by
    simp [Form.directChildren]

instance (start : Nat) : Draws [] (withStatement g start) := by
  unfold withStatement
  exact .step fun _ => .first fun object => .take fun body => .finish fun _ => by
    simp [Form.directChildren]

instance : Draws [] (loopVariables g) := by
  unfold loopVariables
  exact .step fun _ => .withContext _ (.ite inferInstance inferInstance)

instance : Draws [] (forInitializer? g) := inferInstanceAs (Draws [] (unless? _ _))

theorem forOfRest_draws (start : Nat) (isAwait : Bool) (initializer : Node) :
    Draws (marks initializer) (forOfRest g start isAwait initializer) := by
  unfold forOfRest
  exact .step fun _ => .take fun source => .step fun _ => .take fun body => .finish fun _ => by
    simp [Form.directChildren]

theorem forInRest_draws (start : Nat) (initializer : Node) :
    Draws (marks initializer) (forInRest g start initializer) := by
  unfold forInRest
  exact .take fun source => .step fun _ => .take fun body => .finish fun _ => by
    simp [Form.directChildren]

theorem forRest_draws (start : Nat) (initializer : Option Node) :
    Draws (marks initializer) (forRest g start initializer) := by
  unfold forRest
  exact .step fun _ => .step fun _ => .take fun test => .step fun _ => .take fun incrementor =>
    .step fun _ => .take fun body => .finish fun _ => by simp [Form.directChildren]

instance (start : Nat) : Draws [] (forStatement g start) := by
  unfold forStatement
  refine .step fun _ => .step fun isAwait => .step fun _ => .first fun initializer? => ?_
  cases initializer? with
  | none => exact forRest_draws start none
  | some initializer =>
      refine .weaken (.step fun _ => .ite (forOfRest_draws start isAwait initializer) ?_)
        fun _ => by simp
      refine .step fun _ => .ite (forInRest_draws start initializer) ?_
      exact (forRest_draws start (some initializer)).weaken fun _ => by simp

instance : Draws [] (catchVariable g) := by
  unfold catchVariable
  refine .step fun start => .first fun name => .take fun type => .spend (.finish fun _ => ?_)
    fun declaration => .step fun _ => .pure fun _ => by simp
  simp [Form.directChildren]

instance : Draws [] (catchClause g) := by
  unfold catchClause
  exact .step fun start => .step fun _ => .first fun binding? => .take fun body =>
    .finish fun _ => by simp [Form.directChildren]

instance (start : Nat) : Draws [] (tryStatement g start) := by
  unfold tryStatement
  exact .step fun _ => .first fun body => .take fun handler => .take fun finalizer => .step fun _ =>
    .finish fun _ => by simp [Form.directChildren]

instance : Draws [] (caseTest? g) := by
  unfold caseTest?
  refine .step fun _ => .ite ?_ (.step fun _ => .pure fun _ => by simp)
  exact .first fun test => .pure fun _ => by simp

instance : Draws [] (caseClause g) := by
  unfold caseClause
  exact .step fun start => .first fun test => .step fun _ => .step fun _ => .take fun statements =>
    .finish fun _ => by simp [Form.directChildren]

theorem switchStep_draws (rev : List Node) : Draws (marks rev) (switchStep g rev) := by
  unfold switchStep
  refine .step fun _ =>
    .ite (.pure fun _ => by simp) (.step fun _ => .ite ?_ (.take fun clause => ?_))
  · exact .step fun _ => .step fun _ => .pure fun _ => by simp
  · have hkeep : Draws (marks rev ++ marks clause)
        (pure (ForInStep.yield (clause :: rev)) : Parse (ForInStep (List Node))) :=
      .pure fun _ => by simp; omega
    exact .ite (.step fun _ => hkeep) hkeep

instance : Draws [] (switchClauses g) := by
  unfold switchClauses
  refine .step fun _ => .ite (.pure fun _ => by simp) ?_
  exact .spend (.loop (fun _ => Nat.le_refl _) switchStep_draws) fun rev => .step fun _ =>
    .pure fun _ => by simp

instance (start : Nat) : Draws [] (switchStatement g start) := by
  unfold switchStatement
  exact .step fun _ => .first fun subject => .take fun clauses => .finish fun _ => by
    simp [Form.directChildren]

instance (start : Nat) : Draws [] (otherStatement g start) := by
  unfold otherStatement
  exact .step fun _ => .ite inferInstance (.step fun _ => .ite inferInstance inferInstance)

instance : Draws [] (statementInner g) := by
  unfold statementInner
  refine .onToken fun start k => ?_
  split
  · exact .draws (.step fun _ => .finish fun _ => by simp [Form.directChildren])
  · exact .draws (.first fun body => .finish fun _ => by simp [Form.directChildren])
  · exact .draws inferInstance
  iterate 4
    exact .draws (.step fun _ => .ite inferInstance inferInstance)
  iterate 7
    exact .draws inferInstance
  iterate 2
    refine jumpStatement_draws nofun (fun _ => ?_) fun _ => rfl
    simp [Form.directChildren]
  iterate 7
    exact .draws inferInstance

instance : Draws [] (statement g) := inferInstanceAs (Draws [] (nested _ _))

instance (nt : Nonterminal) : Draws [] (rule g nt) := by
  cases nt <;> unfold rule <;> infer_instance

end

instance (nt : Nonterminal) : Draws [] (substitute nt) := by
  unfold substitute
  split
  iterate 3
    infer_instance
  · exact .first fun name => .pure fun _ => by simp [marks_toBinding]
  · exact .first fun name => .finish fun _ => by simp [Form.directChildren]
  · infer_instance

instance numbering_grammar (fuel : Nat) : Numbering (grammar fuel) := by
  induction fuel with
  | zero => exact ⟨fun nt => .step fun _ => .step fun _ => inferInstance⟩
  | succ fuel ih => exact ⟨fun nt => inferInstanceAs (Draws [] (rule (grammar fuel) nt))⟩

/-- Every mark is given out once while a file is read. The first number is the one of the file
itself, so that the statements begin with the next. -/
theorem count_marks_file (fileName source : String) (i : Mark) :
    (marks (file (ParseState.ofString fileName source)).1).count i ≤
      drawn ((firstState fileName source).upTo i)
        ((file (ParseState.ofString fileName source)).2.upTo i) i.value := by
  have hlist : Draws [] (statementList (grammar (fuelFor source.utf8ByteSize)) (· = .endOfFile)) :=
    inferInstance
  have hcount := hlist.count_le _ (ready_firstState fileName source) i
  rwa [List.count_nil, Nat.zero_add, ← file_eq] at hcount

theorem count_numbers_file (fileName source : String) (i : NodeId) :
    (numbers (file (ParseState.ofString fileName source)).1).count i ≤
      drawn 1 (file (ParseState.ofString fileName source)).2.nextId i := by
  rw [← count_numbers]
  exact count_marks_file fileName source (.number i)

theorem nodup_numbers_file (fileName source : String) :
    (numbers (file (ParseState.ofString fileName source)).1).Nodup :=
  List.nodup_iff_count_le_one.mpr fun i =>
    (count_numbers_file fileName source i).trans (drawn_le_one _ _ _)

end Parse

/-- No two jumps of a file start at the same place, and no jump is in its tree twice. -/
theorem count_jump_parseSource (fileName source : String) (start : Nat) :
    (marks (parseSource fileName source).1.statements).count (.jump start) ≤ 1 :=
  (Parse.count_marks_file fileName source (.jump start)).trans (Parse.drawn_le_one _ _ _)

/-- The numbers in the tree of a file differ from one another, and the count of the file is greater
than all of them. None of them is zero, which is the number of the file itself. -/
theorem nodup_numbers_parseSource (fileName source : String) :
    (numbers (parseSource fileName source).1.statements).Nodup ∧
      ∀ i ∈ numbers (parseSource fileName source).1.statements,
        0 < i ∧ i < (parseSource fileName source).1.nodeCount := by
  refine ⟨Parse.nodup_numbers_file fileName source, ?_⟩
  intro i hi
  have hpos : 0 < (numbers (parseSource fileName source).1.statements).count i :=
    List.count_pos_iff.mpr hi
  have hdrawn := hpos.trans_le (Parse.count_numbers_file fileName source i)
  unfold Parse.drawn at hdrawn
  split at hdrawn
  · assumption
  · exact absurd hdrawn (Nat.lt_irrefl 0)

end Erasure
