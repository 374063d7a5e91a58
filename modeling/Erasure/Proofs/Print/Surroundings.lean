import Erasure.Proofs.Print.Composed.File

/-!
What surrounds a piece of syntax while it is printed is the same after it as before it: the level of
indentation, the scope, the place of exports and the enum. The level is raised in many places, under
conditions on the layout, and lowered where the step that was indented ends; there it is what it was
when it was raised, so it never has to go below zero. A step with comments around it tells if it
printed anything after the fact, by the length of the output. Nothing that was written before is
ever touched, so that going back to the mark before the comments leaves the writer as it was; and
comments do not count, so that only the code of a node decides whether it is printed.
-/

namespace Erasure
namespace Print

/-- What surrounds the text that is printed next. -/
structure Surroundings where
  indentLevel : Nat
  scope : ScopeId
  target : ExportTarget
  currentEnum? : Option SymbolId

def surroundings : Print Surroundings := do
  let p ← read
  let s ← get
  return {
    indentLevel := s.writer.indentLevel
    scope := p.scope, target := p.target, currentEnum? := p.currentEnum? }

/-- After a step, the surroundings are those before it. -/
def Restores {α : Type} (m : Print α) : Prop :=
  ∀ (p : PrintPlace) (s : PrintState),
    ((do let _ ← m; surroundings : Print Surroundings) p s).1 = (surroundings p s).1

namespace Composed

variable {α : Type} {m : Print α}

theorem indentLevel_eq (h : Composed m) (p : PrintPlace) (s : PrintState) :
    (m p s).2.writer.indentLevel = s.writer.indentLevel := by
  obtain ⟨-, ps, -, ⟨passed, -, hps⟩, -⟩ := h.weaves p s { pending := [] } rfl
  exact hps.indentLevel

theorem restores (h : Composed m) : Restores m := by
  intro p s
  change Surroundings.mk (m p s).2.writer.indentLevel p.scope p.target p.currentEnum? = _
  rw [h.indentLevel_eq]
  rfl

/-- Where a level that was raised is lowered again, it is one above what it was. -/
theorem indentLevel_indent (h : Composed m) (p : PrintPlace) (s : PrintState) :
    (m p { s with writer := s.writer.indent }).2.writer.indentLevel = s.writer.indentLevel + 1 :=
  h.indentLevel_eq p { s with writer := s.writer.indent }

end Composed

/-- The functions that print syntax restore the surroundings, given how to print the nodes below. -/
structure RestoringPrinters (print : Slot → Node → Print Bool) : Prop where
  node (slot : Slot) (n : Node) : Restores (node print slot n)
  statement (n : Node) : Restores (statement print n)
  statementForm (n : Node) : Restores (statementForm print n)
  statementList (ns : List Node) : Restores (statementList print ns)
  expression (n : Node) : Restores (expression print n)
  operandForm (required : Precedence) (besideCoalesce : Bool) (n : Node) :
    Restores (operandForm print required besideCoalesce n)
  classDeclaration (n : Node) : Restores (classDeclaration print n)
  classExpression (n : Node) : Restores (classExpression print n)
  classMembers (c : ClassLike) (plan : FieldPlan) : Restores (classMembers print c plan)
  enumDeclaration (ms : Modifiers) (name : Identifier) (members : List Node) :
    Restores (enumDeclaration print ms name members)
  namespaceDeclaration (n : Node) (isExported : Bool) :
    Restores (namespaceDeclaration print n isExported)
  function (n : Node) (name? : Option String) : Restores (function print n name?)
  method (keyword? : Option String) (key n : Node) : Restores (method print keyword? key n)
  arrowFunction (n : Node) (f : FunctionLike) (isBare : Bool) :
    Restores (arrowFunction print n f isBare)
  functionBody (n : Node) (added : List FieldAssignment) (isDerived : Bool) :
    Restores (functionBody print n added isDerived)
  block (n : Node) : Restores (block print n)
  arrayLiteral (layout : ListLayout) (ns : List Node) : Restores (arrayLiteral print layout ns)
  objectLiteral (layout : ListLayout) (ns : List Node) : Restores (objectLiteral print layout ns)
  template (text : String) (spans : List Node) : Restores (template print text spans)
  embedded (n : Node) : Restores (embedded print n)
  ifStatement (condition thenBranch : Node) (elseBranch? : Option Node) :
    Restores (ifStatement print condition thenBranch elseBranch?)
  doStatement (body condition : Node) : Restores (doStatement print body condition)
  forStatement (n : Node) (initial? condition? incrementor? : Option Node) (body : Node) :
    Restores (forStatement print n initial? condition? incrementor? body)
  switchStatement (n subject : Node) (clauses : List Node) :
    Restores (switchStatement print n subject clauses)
  caseClause (n : Node) : Restores (caseClause print n)
  labeledStatement (label : Identifier) (body : Node) :
    Restores (labeledStatement print label body)
  tryStatement (body : Node) (handler? finalizer? : Option Node) :
    Restores (tryStatement print body handler? finalizer?)

theorem ComposedNodes.restoringPrinters {print : Slot → Node → Print Bool}
    (h : ComposedNodes print) : RestoringPrinters print where
  node slot n := (h.node slot n).restores
  statement n := (Composed.statement h n).restores
  statementForm n := (Settled.statementForm h n).composed.restores
  statementList ns := (Composed.statementList h ns).restores
  expression n := (Composed.expression h n).restores
  operandForm required besideCoalesce n :=
    (Composed.operandForm h required besideCoalesce n).restores
  classDeclaration n := (Settled.classDeclaration h n).composed.restores
  classExpression n := (Composed.classExpression h n).restores
  classMembers c plan := (Composed.classMembers h c plan).restores
  enumDeclaration ms name members := (Settled.enumDeclaration h ms name members).composed.restores
  namespaceDeclaration n isExported :=
    (Settled.namespaceDeclaration h n isExported).composed.restores
  function n name? := (Composed.function h n name?).restores
  method keyword? key n := (Composed.method h keyword? key n).restores
  arrowFunction n f isBare := (Composed.arrowFunction h n f isBare).restores
  functionBody n added isDerived := (Composed.functionBody h n added isDerived).restores
  block n := (Settled.block h n).composed.restores
  arrayLiteral layout ns := (Composed.arrayLiteral h layout ns).restores
  objectLiteral layout ns := (Composed.objectLiteral h layout ns).restores
  template text spans := (Composed.template h text spans).restores
  embedded n := (Composed.embedded h n).restores
  ifStatement condition thenBranch elseBranch? :=
    (Voiced.ifStatement h condition thenBranch elseBranch?).composed.restores
  doStatement body condition := (Voiced.doStatement h body condition).composed.restores
  forStatement n initial? condition? incrementor? body :=
    (Voiced.forStatement h n initial? condition? incrementor? body).composed.restores
  switchStatement n subject clauses :=
    (Voiced.switchStatement h n subject clauses).composed.restores
  caseClause n := (Composed.caseClause h n).restores
  labeledStatement label body := (Voiced.labeledStatement h label body).composed.restores
  tryStatement body handler? finalizer? :=
    (Voiced.tryStatement h body handler? finalizer?).composed.restores

end Print

/-- The level after the header is that before it. -/
theorem PrintJob.afterHeader_indentLevel (j : PrintJob) : j.afterHeader.writer.indentLevel = 0 := by
  obtain ⟨passed, ps, -, hps⟩ :=
    Print.annotates_headerComments j.place (s := { pending := j.file.comments }) rfl
  exact hps.indentLevel

open Print in
/-- Every printer of syntax restores its surroundings. The level of indentation is lowered only
where it was raised, and at the end of a file it is zero. -/
theorem Print.surroundings_restored :
    (∀ fuel, RestoringPrinters (nodeWithin fuel)) ∧
      (∀ fuel slot n, Composed (nodeWithin fuel slot n)) ∧
      (∀ (α : Type) (m : Print α), Composed m → ∀ (p : PrintPlace) (s : PrintState),
        (m p { s with writer := s.writer.indent }).2.writer.indentLevel =
          s.writer.indentLevel + 1) ∧
      ∀ j : PrintJob, (sourceFile (nodeWithin j.file.nodeCount) j.file j.place
        { pending := j.file.comments }).2.writer.indentLevel = 0 := by
  refine ⟨fun fuel => (ComposedNodes.nodeWithin fuel).restoringPrinters,
    ComposedNodes.nodeWithin, fun _ _ h => h.indentLevel_indent, fun j => ?_⟩
  calc (j.body j.place j.afterHeader).2.writer.indentLevel
      _ = j.afterHeader.writer.indentLevel := j.composed_body.indentLevel_eq _ _
      _ = 0 := j.afterHeader_indentLevel

/-- The block `{ ; }` with its statement on a line of its own. -/
def blockFile : SourceFile where
  fileName := "input.ts"
  text := "\x7b\n;\n\x7d"
  statements := [⟨1, ⟨0, 5⟩, .blockStmt ⟨2, ⟨0, 5⟩, .block [⟨3, ⟨2, 3⟩, .emptyStmt⟩] true false⟩⟩]
  comments := []
  endOfFile := 5
  nodeCount := 4

open Print in
theorem blockFile_restored :
    let j := PrintJob.ofFile blockFile blockFile.bind {}
    let block : Print Bool := nodeWithin 4 .statement blockFile.statements[0]
    Composed block ∧ j.text = "\x7b\n    ;\n\x7d\n" ∧
      (block j.place { writer := ({} : Writer).indent, pending := [] }).2.writer.indentLevel =
        1 := by
  intro j block
  have hblock : Composed block := ComposedNodes.nodeWithin 4 _ _
  exact ⟨hblock, by decide +kernel,
    surroundings_restored.2.2.1 Bool block hblock j.place { pending := [] }⟩

namespace Print

/-- A step that prints some code, with what belongs to it, and tells if there was any. If there was,
text is added at the end of the output; if there was none, the writer is what it was before. -/
structure Traces (code : Print Unit) (m : Print Bool) : Prop where
  erased : ∀ p s, (m p s).1 = false → (m p s).2.writer = s.writer
  printed : ∀ p s, (m p s).1 = true →
    (∃ text ≠ "", (m p s).2.writer.output = s.writer.output ++ text) ∧
      (m p s).2.writer.indentLevel = s.writer.indentLevel
  /-- Neither the comments nor what was printed before have a say in it. -/
  told : ∀ p s s', (m p s).1 = (code p s').2.writer.wroteSince s'.writer.mark

namespace Composed

variable {α : Type} {m : Print α} (h : Composed m)
include h

/-- Nothing that was written before is touched. -/
theorem exists_output (p : PrintPlace) (s : PrintState) :
    ∃ text, (m p s).2.writer.output = s.writer.output ++ text := by
  obtain ⟨-, ps, -, ⟨_, -, hps⟩, -⟩ := h.weaves p s { pending := [] } rfl
  exact ⟨Piece.textOf ps, hps.output⟩

theorem exists_text_of_length_lt {p : PrintPlace} {s : PrintState}
    (hlength : s.writer.length < (m p s).2.writer.length) :
    ∃ text ≠ "", (m p s).2.writer.output = s.writer.output ++ text := by
  obtain ⟨text, htext⟩ := h.exists_output p s
  refine ⟨text, ?_, htext⟩
  rintro rfl
  rw [Writer.length, Writer.length, htext, String.append_empty] at hlength
  exact Nat.lt_irrefl _ hlength

/-- Going back to the mark before a step undoes it. -/
theorem rewind_mark (p : PrintPlace) (s : PrintState) :
    (m p s).2.writer.rewind s.writer.mark = s.writer := by
  obtain ⟨text, htext⟩ := h.exists_output p s
  exact Writer.rewind_mark htext (h.indentLevel_eq p s)

end Composed

theorem Settled.traces {code : Print Unit} (h : Settled code) (span : Span) :
    Traces code (Print.commented span code) := by
  have hopened : Composed (leadingComments span.start) := .comments (.leading _)
  have hclosed : Composed (do skipComments span.stop; trailingComments span.stop) :=
    (Composed.comments (.skip _)).seq (.comments (.trailing _))
  refine ⟨fun p s herased => ?_, fun p s hprinted => ?_, fun p s s' => ?_⟩
  · have hsilent := (told_commented span code p s).symm.trans herased
    rw [commented_run, hsilent]
    exact (hopened.seq h.composed).rewind_mark p s
  · have hwrote := (told_commented span code p s).symm.trans hprinted
    have hcomposed : Composed (Print.commented span code) := h.commented span
    refine ⟨hcomposed.exists_text_of_length_lt ?_, hcomposed.indentLevel_eq p s⟩
    calc s.writer.length
        _ ≤ (opened span p s).writer.length := hopened.length_le p s
        _ < (coded span code p s).writer.length := of_decide_eq_true hwrote
        _ ≤ (Print.commented span code p s).2.writer.length := by
          rw [commented_run, hwrote]
          exact hclosed.length_le p _
  · rw [told_commented]
    rcases h.decided p with hwrites | hsilent
    · exact (hwrites _).trans (hwrites s').symm
    · exact (hsilent _).trans (hsilent s').symm

/-- A step after code that was printed, such as what exports it. -/
theorem Traces.bind {code : Print Unit} {m : Print Bool} (h : Traces code m)
    {k : Bool → Print Bool} (hk : ∀ isPrinted, Composed (k isPrinted))
    (htold : ∀ isPrinted p s, (k isPrinted p s).1 = isPrinted)
    (hnothing : ∀ p s, (k false p s).2 = s) : Traces code (m >>= k) := by
  refine ⟨fun p s herased => ?_, fun p s hprinted => ?_, fun p s s' => ?_⟩
  · rw [bind_run, htold] at herased
    rw [bind_run, herased, hnothing]
    exact h.erased p s herased
  · rw [bind_run, htold] at hprinted
    obtain ⟨⟨text, hne, htext⟩, hlevel⟩ := h.printed p s hprinted
    obtain ⟨more, hmore⟩ := (hk (m p s).1).exists_output p (m p s).2
    rw [bind_run]
    refine ⟨⟨text ++ more, fun hempty => hne (String.append_eq_empty_iff.mp hempty).1, ?_⟩, ?_⟩
    · rw [hmore, htext, String.append_assoc]
    · exact ((hk (m p s).1).indentLevel_eq p _).trans hlevel
  · rw [bind_run, htold]
    exact h.told p s s'

theorem traces_statement {print : Slot → Node → Print Bool} (hprint : ComposedNodes print)
    (n : Node) : Traces (statementForm print n) (statement print n) := by
  refine ((Settled.statementForm hprint n).traces n.span).bind (fun isPrinted => ?_) ?_ ?_
  · have hexported := (Composed.declaredExports n).seq (.pure isPrinted)
    exact .target fun t => .ite hexported (.pure isPrinted)
  · intro isPrinted p s
    change ((if isPrinted && p.target = ExportTarget.commonJS then do
      declaredExports n
      return isPrinted
    else return isPrinted : Print Bool) p s).1 = isPrinted
    split <;> rfl
  · exact fun _ _ => rfl

/-- Statements, members of classes and members of enums that print nothing leave the writer as it
was, the comments before them included; those that print something add it to the output. -/
theorem erased_without_trace (fuel : Nat) :
    (∀ n, Traces (statementForm (nodeWithin fuel) n) (nodeWithin (fuel + 1) .statement n)) ∧
      (∀ (c : ClassLike) (plan : FieldPlan) (m : ClassMember),
        Traces (classMember (nodeWithin fuel) c plan m)
          (commented m.node.span (classMember (nodeWithin fuel) c plan m))) ∧
      ∀ (owner : SymbolId) (enumName : String) (n key : Node) (initial? : Option Node),
        Traces (enumMember (nodeWithin fuel) owner enumName n key initial?)
          (commented n.span (enumMember (nodeWithin fuel) owner enumName n key initial?)) := by
  have hprint := ComposedNodes.nodeWithin fuel
  refine ⟨traces_statement hprint, fun c plan m => ?_, fun owner enumName n key initial? => ?_⟩
  · exact (Settled.classMember hprint c plan m).traces _
  · exact (Voiced.enumMember hprint owner enumName n key initial?).settled.traces _

end Print
end Erasure
