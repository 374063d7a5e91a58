import Erasure.Proofs.Untyped.PrintModule

/-!
Statements are printed alike with and without the types in them, and so are files. Types therefore
do not influence the output.
-/

namespace Erasure

variable {M : Matching} {outside : NodeId → Prop}

namespace Print.Alike

section
variable {print print' : Slot → Node → Print Bool}
variable (hprint : NodesAlike M outside print print')
include hprint

theorem embedded {n : Node} (hn : n.Apart outside) :
    Alike M outside (Print.embedded print n) (Print.embedded print' n.untyped) := by
  have hstatement := hprint .statement n hn
  unfold Print.embedded
  rw [Node.form_untyped, Form.isBlockStatement_untyped]
  refine .ite Iff.rfl (space.seq hstatement.discard) (.indented (line.seq (.withTarget _ ?_)))
  exact hstatement.bind fun _ => .ite Iff.rfl (write ";") unit

theorem head (keyword : String) {n : Node} (hn : n.Apart outside) :
    Alike M outside (Print.head print keyword n) (Print.head print' keyword n.untyped) :=
  (write _).seq ((expression hprint hn).seq (write ")"))

theorem ifStatement {condition thenBranch : Node} (hcondition : condition.Apart outside)
    (hthen : thenBranch.Apart outside) {elseBranch? : Option Node}
    (helse : ApartOption outside elseBranch?) :
    Alike M outside (Print.ifStatement print condition thenBranch elseBranch?)
      (Print.ifStatement print' condition.untyped thenBranch.untyped
        (untypedOption elseBranch?)) := by
  refine (head hprint "if" hcondition).seq ((embedded hprint hthen).seq (.node? helse ?_))
  intro n hn
  rw [Node.form_untyped, Form.isIfStatement_untyped]
  refine line.seq ((write "else").seq (.ite Iff.rfl ?_ (embedded hprint hn)))
  exact space.seq (.discard (hprint .statement n hn))

theorem doStatement {body condition : Node} (hbody : body.Apart outside)
    (hcondition : condition.Apart outside) :
    Alike M outside (Print.doStatement print body condition)
      (Print.doStatement print' body.untyped condition.untyped) := by
  have hend := (head hprint "while" hcondition).seq (write ";")
  unfold Print.doStatement
  rw [Node.form_untyped, Form.isBlockStatement_untyped]
  refine (write "do").seq ((embedded hprint hbody).seq ?_)
  exact .ite Iff.rfl (space.seq hend) (line.seq hend)

theorem forInitializer {n : Node} (hn : n.Apart outside) :
    Alike M outside (Print.forInitializer print n) (Print.forInitializer print' n.untyped) := by
  have hform := hn.form
  have hexpression := expression hprint hn
  unfold Print.forInitializer
  rw [Node.form_untyped]
  cases h : n.form with
  | variableList kind declarations =>
      rw [h] at hform
      exact variableList hprint kind hform
  | _ => exact hexpression

theorem forPart {n? : Option Node} (hn : ApartOption outside n?) :
    Alike M outside (Print.forPart print n?) (Print.forPart print' (untypedOption n?)) :=
  (write ";").seq (.node? hn fun _ hn => space.seq (expression hprint hn))

theorem forStatement {n : Node} (hn : n.Apart outside)
    {initial? condition? incrementor? : Option Node} (hinitial : ApartOption outside initial?)
    (hcondition : ApartOption outside condition?)
    (hincrementor : ApartOption outside incrementor?) {body : Node} (hbody : body.Apart outside) :
    Alike M outside (Print.forStatement print n initial? condition? incrementor? body)
      (Print.forStatement print' n.untyped (untypedOption initial?) (untypedOption condition?)
        (untypedOption incrementor?) body.untyped) := by
  unfold Print.forStatement
  rw [Node.id_untyped]
  refine .inScopeOf hn.id ((write "for (").seq (.seq ?_ ?_))
  · exact .node? hinitial fun _ hn => forInitializer hprint hn
  · exact (forPart hprint hcondition).seq
      ((forPart hprint hincrementor).seq ((write ")").seq (embedded hprint hbody)))

theorem forEach {n : Node} (hn : n.Apart outside) (opening keyword : String) {initial body : Node}
    (hinitial : initial.Apart outside) (hbody : body.Apart outside) {m m' : Print Unit}
    (h : Alike M outside m m') :
    Alike M outside (Print.forEach print n opening keyword initial body m)
      (Print.forEach print' n.untyped opening keyword initial.untyped body.untyped m') := by
  unfold Print.forEach
  rw [Node.id_untyped]
  refine .inScopeOf hn.id ((write opening).seq ((forInitializer hprint hinitial).seq ?_))
  exact (write keyword).seq (h.seq ((write ")").seq (embedded hprint hbody)))

omit hprint in
theorem jump (keyword : String) (label? : Option Identifier) :
    Alike M outside (Print.jump keyword label?) (Print.jump keyword label?) :=
  (write keyword).seq (.seq (option_same fun i _ => space.seq (identifier i)) (write ";"))

theorem returnStatement {n? : Option Node} (hn : ApartOption outside n?) :
    Alike M outside (Print.returnStatement print n?)
      (Print.returnStatement print' (untypedOption n?)) :=
  (write "return").seq
    (.seq (.node? hn fun _ hn => space.seq (expression hprint hn)) (write ";"))

theorem caseClause {n : Node} (hn : n.Apart outside) :
    Alike M outside (Print.caseClause print n) (Print.caseClause print' n.untyped) := by
  have hform := hn.form
  unfold Print.caseClause
  rw [Node.form_untyped, Node.span_untyped]
  cases h : n.form with
  | caseClause subject? statements isSingleLine =>
      rw [h] at hform
      have hlength : (untypedAll statements).length = statements.length := by
        rw [untypedAll_eq_map, List.length_map]
      have hbody : Alike M outside
          (Print.withTarget .nested do
            if isSingleLine && statements.length = 1 then Print.inlineStatements print statements
            else Print.indented do
              Print.line
              Print.statementList print statements)
          (Print.withTarget .nested do
            if isSingleLine && (untypedAll statements).length = 1 then
              Print.inlineStatements print' (untypedAll statements)
            else Print.indented do
              Print.line
              Print.statementList print' (untypedAll statements)) := by
        rw [hlength]
        refine .withTarget _ (.ite Iff.rfl (inlineStatements hprint hform.2) ?_)
        exact .indented (line.seq (statementList hprint hform.2))
      refine (leadingComments _).seq ?_
      cases subject? with
      | none => exact (write "default:").seq hbody
      | some subject =>
          exact (write "case ").seq ((expression hprint hform.1).seq ((write ":").seq hbody))
  | _ => exact unit

theorem switchStatement {n subject : Node} (hn : n.Apart outside) (hsubject : subject.Apart outside)
    {clauses : List Node} (hclauses : ApartAll outside clauses) :
    Alike M outside (Print.switchStatement print n subject clauses)
      (Print.switchStatement print' n.untyped subject.untyped (untypedAll clauses)) := by
  unfold Print.switchStatement
  rw [Node.id_untyped, Node.span_untyped]
  refine .inScopeOf hn.id ((head hprint "switch" hsubject).seq ((write _).seq (.seq ?_ ?_)))
  · refine .indented (line.seq (.seq ?_ (closingComments _)))
    exact .nodes hclauses fun _ hn => (caseClause hprint hn).seq line
  · exact line.seq (write _)

theorem labeledStatement (label : Identifier) {body : Node} (hbody : body.Apart outside) :
    Alike M outside (Print.labeledStatement print label body)
      (Print.labeledStatement print' label body.untyped) := by
  refine (identifier label).seq ((write ": ").seq ?_)
  exact (hprint .statement body hbody).bind fun _ => .ite Iff.rfl (write ";") unit

theorem catchBinding {n : Node} (hn : n.Apart outside) :
    Alike M outside (Print.catchBinding print n) (Print.catchBinding print' n.untyped) := by
  have hform := hn.form
  unfold Print.catchBinding
  rw [Node.form_untyped]
  cases h : n.form with
  | variableDeclaration name _ _ _ =>
      rw [h] at hform
      exact (write "(").seq ((binding hprint hform.1).seq (write ") "))
  | _ => exact unit

theorem catchClause {n : Node} (hn : n.Apart outside) :
    Alike M outside (Print.catchClause print n) (Print.catchClause print' n.untyped) := by
  have hform := hn.form
  unfold Print.catchClause
  rw [Node.form_untyped, Node.id_untyped]
  cases h : n.form with
  | catchClause binding? body =>
      rw [h] at hform
      refine .inScopeOf hn.id ((write "catch ").seq (.seq ?_ (block hprint hform.2)))
      exact .node? hform.1 fun _ hn => catchBinding hprint hn
  | _ => exact unit

theorem tryStatement {body : Node} (hbody : body.Apart outside) {handler? finalizer? : Option Node}
    (hhandler : ApartOption outside handler?) (hfinalizer : ApartOption outside finalizer?) :
    Alike M outside (Print.tryStatement print body handler? finalizer?)
      (Print.tryStatement print' body.untyped (untypedOption handler?)
        (untypedOption finalizer?)) := by
  refine (write "try ").seq ((block hprint hbody).seq (.seq ?_ ?_))
  · exact .node? hhandler fun _ hn => line.seq (catchClause hprint hn)
  · exact .node? hfinalizer fun _ hn => line.seq ((write _).seq (block hprint hn))

theorem expressionStatement {n : Node} (hn : n.Apart outside) :
    Alike M outside (Print.expressionStatement print n)
      (Print.expressionStatement print' n.untyped) := by
  have hexpression := expression hprint hn
  unfold Print.expressionStatement
  rw [Node.firstPrinted_untyped, Node.form_untyped, Form.isStatementLike_untyped]
  refine .ite Iff.rfl ?_ (hexpression.seq (write ";"))
  exact (write "(").seq (hexpression.seq ((write ")").seq (write ";")))

theorem statementForm {n : Node} (hn : n.Apart outside) :
    Alike M outside (Print.statementForm print n) (Print.statementForm print' n.untyped) := by
  have hform := hn.form
  have hnames := hn.name
  unfold Print.statementForm
  rw [Node.form_untyped]
  cases h : n.form with
  | emptyStmt => exact .write _
  | blockStmt body =>
      rw [h] at hform
      exact block hprint hform
  | exprStmt inner =>
      rw [h] at hform
      exact expressionStatement hprint hform
  | varStmt ms list =>
      rw [h] at hform
      obtain ⟨_, _, form⟩ := list
      cases form with
      | variableList kind declarations => exact variableStatement hprint ms kind hform.2.2
      | _ => exact unit
  | functionStmt ms name? func =>
      rw [h] at hform
      exact functionDeclaration hprint ms name? hform
  | classStmt cls =>
      rw [h] at hform
      exact classDeclaration hprint hform
  | enumStmt ms name members =>
      rw [h] at hform hnames
      exact enumDeclaration hprint ms (hnames _ (List.mem_singleton.mpr rfl)) hform
  | moduleStmt declaration =>
      rw [h] at hform
      exact moduleStatement hprint hform
  | importStmt ms clause? specifier attributes? =>
      rw [h] at hform hnames
      refine importDeclaration hprint ?_ specifier hform
      rintro clause rfl
      exact hnames
  | importEqualsStmt ms isTypeOnly name reference =>
      rw [h] at hnames
      exact importAssignment isTypeOnly (hnames _ (List.mem_singleton.mpr rfl)) reference _
  | exportStmt ms isTypeOnly clause? specifier? attributes? =>
      rw [h] at hform
      exact exportDeclaration hprint n isTypeOnly clause? specifier? hform
  | exportAssignment isEquals inner =>
      rw [h] at hform
      exact exportAssignment hprint isEquals hform
  | ifStmt condition thenBranch elseBranch? =>
      rw [h] at hform
      exact ifStatement hprint hform.1 hform.2.1 hform.2.2
  | doStmt body condition =>
      rw [h] at hform
      exact doStatement hprint hform.1 hform.2
  | whileStmt condition body =>
      rw [h] at hform
      exact (head hprint "while" hform.1).seq (embedded hprint hform.2)
  | forStmt initial? condition? incrementor? body =>
      rw [h] at hform
      exact forStatement hprint hn hform.1 hform.2.1 hform.2.2.1 hform.2.2.2
  | forInStmt initial inner body =>
      rw [h] at hform
      exact forEach hprint hn _ _ hform.1 hform.2.2 (expression hprint hform.2.1)
  | forOfStmt isAwait initial inner body =>
      rw [h] at hform
      exact forEach hprint hn _ _ hform.1 hform.2.2 (operand hprint .assignment hform.2.1)
  | continueStmt label? => exact jump "continue" label?
  | breakStmt label? => exact jump "break" label?
  | returnStmt inner? =>
      rw [h] at hform
      exact returnStatement hprint hform
  | withStmt inner body =>
      rw [h] at hform
      exact (head hprint "with" hform.1).seq (embedded hprint hform.2)
  | switchStmt subject clauses =>
      rw [h] at hform
      exact switchStatement hprint hn hform.1 hform.2
  | labeledStmt label body =>
      rw [h] at hform
      exact labeledStatement hprint label hform
  | throwStmt inner =>
      rw [h] at hform
      exact (write "throw ").seq ((expression hprint hform).seq (write ";"))
  | tryStmt body handler? finalizer? =>
      rw [h] at hform
      exact tryStatement hprint hform.1 hform.2.1 hform.2.2
  | debuggerStmt => exact .write _
  | _ => exact unit

theorem statement {n : Node} (hn : n.Apart outside) :
    Alike M outside (Print.statement print n) (Print.statement print' n.untyped) := by
  unfold Print.statement
  rw [Node.span_untyped]
  refine (commented n.span (statementForm hprint hn)).bind fun isPrinted => .target fun t => ?_
  exact .when Iff.rfl (declaredExports hn) (.pure isPrinted)

theorem node : NodesAlike M outside (Print.node print) (Print.node print') := by
  intro slot n hn
  cases slot with
  | operand required besideCoalesce =>
      exact (operandForm hprint required besideCoalesce hn).seq (.pure true)
  | statement => exact statement hprint hn
  | binding container? => exact (bindingTarget hprint container? hn).seq (.pure true)
  | namespace_ isExported => exact (namespaceDeclaration hprint hn isExported).seq (.pure true)

theorem prologue {ns : List Node} (hns : ApartAll outside ns) :
    Alike M outside (Print.prologue print ns) (Print.prologue print' (untypedAll ns)) := by
  have hstrict : (untypedAll ns).any isUseStrict = ns.any isUseStrict := by
    rw [untypedAll_eq_map, any_untyped isUseStrict_untyped]
  refine .job fun j j' hj => ?_
  have hneeds : needsStrict j = needsStrict j' := by
    rw [needsStrict, needsStrict, hj.isCommonJS, hj.file, hj.options,
      SourceFile.isExternalModule_untyped]
  rw [hneeds, hstrict]
  exact .when_seq Iff.rfl (write _) line (statementList hprint hns)

theorem sourceFile {f : SourceFile} (hf : ∀ n ∈ f.statements, n.Apart outside) :
    Alike M outside (Print.sourceFile print f) (Print.sourceFile print' f.untyped) := by
  have hstatements : f.untyped.statements = f.statements.map Node.untyped :=
    untypedAll_eq_map f.statements
  have htake : ApartAll outside (f.statements.take (prologueLength f.statements)) :=
    apartAll_iff.mpr fun n hn => hf n (List.mem_of_mem_take hn)
  have hdrop : ApartAll outside (f.statements.drop (prologueLength f.statements)) :=
    apartAll_iff.mpr fun n hn => hf n (List.mem_of_mem_drop hn)
  unfold Print.sourceFile
  rw [hstatements, prologueLength_untyped]
  dsimp only
  rw [← List.map_take, ← List.map_drop, ← untypedAll_eq_map, ← untypedAll_eq_map,
    ← untypedAll_eq_map]
  refine headerComments.seq ((prologue hprint htake).seq (.job fun j j' hj => ?_))
  rw [hj.isCommonJS]
  refine .when Iff.rfl (commonJSPreamble (apartAll_iff.mpr hf)) ?_
  exact (statementList hprint hdrop).seq (closingComments _)

end

theorem nodeWithin (fuel : Nat) :
    NodesAlike M outside (Print.nodeWithin fuel) (Print.nodeWithin fuel) := by
  induction fuel with
  | zero => exact fun _ _ _ => .pure false
  | succ fuel ih => exact node ih

end Print.Alike

theorem PrintJob.Alike.text {j j' : PrintJob} (h : j.Alike M outside j')
    (hstatements : ∀ n ∈ j.file.statements, n.Apart outside) : j.text = j'.text := by
  have hplace : PrintPlace.Alike M outside
      { job := j, scope := Bindings.rootScope, currentEnum? := none
        target := if j.isCommonJS then .commonJS else .topLevel }
      { job := j', scope := Bindings.rootScope, currentEnum? := none
        target := if j'.isCommonJS then .commonJS else .topLevel } :=
    ⟨h, h.bindings.root, by rw [h.isCommonJS], .none⟩
  have hnodes : Print.NodesAlike M outside _ _ := Print.Alike.nodeWithin j.file.nodeCount
  have hstep := Print.Alike.sourceFile hnodes hstatements _ _ hplace
  unfold PrintJob.text
  rw [h.file]
  exact congrArg (fun run => (run { pending := j.file.comments }).2.writer.finish) hstep

/-- What is printed of a file does not depend on its types. -/
theorem SourceFile.TypesApart.print_untyped {f : SourceFile} (h : f.TypesApart) (o : Options) :
    f.print f.bind o = f.untyped.print f.untyped.bind o := by
  obtain ⟨outside, hf⟩ := h
  obtain ⟨M, hb⟩ := f.exists_matches_bind hf
  exact (PrintJob.Alike.ofFile hf hb o).text hf

/-- Files that are equal without their types are printed alike, whatever the types bind and however
they shift the scopes and symbols behind them. -/
theorem SourceFile.print_eq_of_untyped_eq {f g : SourceFile} (hf : f.TypesApart)
    (hg : g.TypesApart) (h : f.untyped = g.untyped) (o : Options) :
    f.print f.bind o = g.print g.bind o := by
  rw [hf.print_untyped o, h, ← hg.print_untyped o]

/-- The numbers of a tree have a property if those of its root and of the trees below it do. -/
theorem Node.forall_owns {P : NodeId → Prop} {n : Node} (hid : P n.id)
    (hnames : ∀ i ∈ n.form.nameIds, P i)
    (hchildren : ∀ c ∈ n.form.children, ∀ i, c.Owns i → P i) : ∀ i, n.Owns i → P i := by
  intro i hi
  cases hi with
  | self h => exact h ▸ hid
  | name h => exact hnames i h
  | child hc hi => exact hchildren _ hc i hi

/-- The declaration `const x: T = 1`, where the type has numbers from ten on. -/
def constantFile (type : Node) : SourceFile where
  fileName := "input.ts"
  text := "const x = 1"
  statements := [⟨1, ⟨0, 11⟩, .varStmt {} ⟨2, ⟨0, 11⟩, .variableList .const
    [⟨3, ⟨6, 11⟩, .variableDeclaration ⟨4, ⟨6, 7⟩, .bindingIdentifier "x"⟩ false (some type)
      (some ⟨5, ⟨10, 11⟩, .numericLiteral "1"⟩)⟩]⟩⟩]
  comments := []
  endOfFile := 11
  nodeCount := 20

theorem constantFile_typesApart {type : Node} (h : type.ForeignType (· < 10)) :
    (constantFile type).TypesApart := by
  have hname : (⟨4, ⟨6, 7⟩, .bindingIdentifier "x"⟩ : Node).Apart (· < 10) :=
    ⟨by decide, List.forall_mem_nil _, trivial⟩
  have hvalue : (⟨5, ⟨10, 11⟩, .numericLiteral "1"⟩ : Node).Apart (· < 10) :=
    ⟨by decide, List.forall_mem_nil _, trivial⟩
  have hdeclaration : (Form.variableDeclaration ⟨4, ⟨6, 7⟩, .bindingIdentifier "x"⟩ false
      (some type) (some ⟨5, ⟨10, 11⟩, .numericLiteral "1"⟩)).Apart (· < 10) :=
    ⟨hname, List.forall_mem_singleton.mpr h, hvalue⟩
  refine ⟨(· < 10), List.forall_mem_singleton.mpr ?_⟩
  refine ⟨by decide, List.forall_mem_nil _, ⟨by decide, List.forall_mem_nil _, ?_, trivial⟩⟩
  exact ⟨by decide, List.forall_mem_nil _, hdeclaration⟩

/-- The type `string extends infer U ? never : unknown`. -/
def conditionalWithInfer : Node :=
  ⟨10, ⟨0, 0⟩, .conditionalType ⟨11, ⟨0, 0⟩, .keywordType .stringKw⟩
    ⟨12, ⟨0, 0⟩, .inferType ⟨13, ⟨0, 0⟩, .typeParameter {} ⟨14, ⟨0, 0⟩, "U"⟩ none none⟩⟩
    ⟨15, ⟨0, 0⟩, .keywordType .neverKw⟩ ⟨16, ⟨0, 0⟩, .keywordType .unknownKw⟩⟩

theorem keywordType_owns {id : NodeId} (h : ¬ id < 10) (keyword : TokenKind) :
    ∀ i, (⟨id, ⟨0, 0⟩, .keywordType keyword⟩ : Node).Owns i → ¬ i < 10 :=
  Node.forall_owns h (List.forall_mem_nil _) (List.forall_mem_nil _)

theorem keywordType_selfContained (id : NodeId) (keyword : TokenKind) (isConditional : Bool) :
    (⟨id, ⟨0, 0⟩, .keywordType keyword⟩ : Node).SelfContained isConditional :=
  .plain rfl (List.forall_mem_nil _)

theorem keywordType_foreign (id : NodeId) (h : ¬ id < 10) (keyword : TokenKind) :
    (⟨id, ⟨0, 0⟩, .keywordType keyword⟩ : Node).ForeignType (· < 10) :=
  ⟨⟨rfl, keywordType_selfContained id keyword false, keywordType_owns h keyword⟩, rfl⟩

theorem conditionalWithInfer_foreign : conditionalWithInfer.ForeignType (· < 10) := by
  have hkeyword := fun id keyword => keywordType_selfContained id keyword true
  refine ⟨⟨rfl, .conditional rfl ?_, ?_⟩, rfl⟩
  · have hparameter : (⟨13, ⟨0, 0⟩, .typeParameter {} ⟨14, ⟨0, 0⟩, "U"⟩ none none⟩ :
        Node).SelfContained true := .plain rfl (List.forall_mem_nil _)
    refine List.forall_mem_cons.mpr ⟨hkeyword _ _, List.forall_mem_cons.mpr ⟨?_, ?_⟩⟩
    · exact .infer rfl (List.forall_mem_singleton.mpr hparameter)
    · exact List.forall_mem_cons.mpr ⟨hkeyword _ _, List.forall_mem_singleton.mpr (hkeyword _ _)⟩
  · have hparameter : ∀ i, (⟨13, ⟨0, 0⟩, .typeParameter {} ⟨14, ⟨0, 0⟩, "U"⟩ none none⟩ :
        Node).Owns i → ¬ i < 10 :=
      Node.forall_owns (by decide) (List.forall_mem_singleton.mpr (by decide))
        (List.forall_mem_nil _)
    refine Node.forall_owns (by decide) (List.forall_mem_nil _) ?_
    refine List.forall_mem_cons.mpr ⟨keywordType_owns (by decide) _, ?_⟩
    refine List.forall_mem_cons.mpr ⟨?_, List.forall_mem_cons.mpr
      ⟨keywordType_owns (by decide) _, List.forall_mem_singleton.mpr ?_⟩⟩
    · exact Node.forall_owns (by decide) (List.forall_mem_nil _)
        (List.forall_mem_singleton.mpr hparameter)
    · exact keywordType_owns (by decide) _

theorem constantFile_printed_alike :
    (constantFile conditionalWithInfer).TypesApart ∧
      (constantFile ⟨10, ⟨0, 0⟩, .keywordType .numberKw⟩).TypesApart ∧
      (constantFile conditionalWithInfer).print (constantFile conditionalWithInfer).bind {} =
        (constantFile ⟨10, ⟨0, 0⟩, .keywordType .numberKw⟩).print
          (constantFile ⟨10, ⟨0, 0⟩, .keywordType .numberKw⟩).bind {} ∧
      (constantFile conditionalWithInfer).print (constantFile conditionalWithInfer).bind {} =
        "const x = 1;\n" := by
  have hconditional := constantFile_typesApart conditionalWithInfer_foreign
  have hnumber := constantFile_typesApart (keywordType_foreign 10 (by decide) .numberKw)
  exact ⟨hconditional, hnumber, SourceFile.print_eq_of_untyped_eq hconditional hnumber rfl {},
    by decide +kernel⟩

end Erasure
