import Erasure.Proofs.Print.Composed.Functions
import Erasure.Proofs.Print.Composed.Modules
import Erasure.Proofs.Print.Composed.Weave

/-!
Statements, and with them all nodes and the file after its header, are printed by composed steps.
The header alone looks at the list of all comments; it is printed first, when none of them is passed
over.
-/

namespace Erasure
namespace Print

theorem Voiced.jump {keyword : String} (h : keyword ≠ "") (label? : Option Identifier) :
    Voiced (jump keyword label?) :=
  (write h).seq
    ((Composed.option _ fun i => Composed.space.seq (.identifier i)).seq (.write _))

section
variable {print : Slot → Node → Print Bool} (hprint : ComposedNodes print)
include hprint

theorem Composed.embedded (n : Node) : Composed (embedded print n) := by
  refine ite (space.seq (.discard (hprint _ n))) (.indented (line.seq (.withTarget _ ?_)))
  exact (hprint _ n).bind fun _ => ite (write _) unit

theorem Voiced.head {keyword : String} (n : Node) : Voiced (head print keyword n) := by
  refine seq (write ?_) ((Composed.expression hprint n).seq (.write _))
  simp

theorem Composed.forInitializer (n : Node) : Composed (forInitializer print n) := by
  unfold Print.forInitializer
  split
  · exact (Voiced.variableList hprint _ _).composed
  · exact expression hprint n

theorem Composed.forPart (n? : Option Node) : Composed (forPart print n?) :=
  (write _).seq (option n? fun n => space.seq (expression hprint n))

theorem Composed.caseClause (n : Node) : Composed (caseClause print n) := by
  unfold Print.caseClause
  split
  · rename_i subject? statements isSingleLine _
    have hbody : Composed (Print.withTarget .nested
        (if isSingleLine && statements.length = 1 then Print.inlineStatements print statements
          else Print.indented do
            Print.line
            Print.statementList print statements)) :=
      .withTarget _ (ite (inlineStatements hprint _) (.indented (line.seq
        (statementList hprint _))))
    refine (leadingComments _).seq ?_
    cases subject? with
    | none => exact (write _).seq hbody
    | some subject => exact (write _).seq ((expression hprint _).seq ((write _).seq hbody))
  · exact unit

theorem Composed.catchBinding (n : Node) : Composed (catchBinding print n) := by
  unfold Print.catchBinding
  split
  · exact (write _).seq ((binding hprint _).seq (write _))
  · exact unit

theorem Composed.catchClause (n : Node) : Composed (catchClause print n) := by
  unfold Print.catchClause
  split
  · refine .inScopeOf _ ((write _).seq (.seq ?_ (Settled.block hprint _).composed))
    exact option _ (catchBinding hprint)
  · exact unit

theorem Voiced.ifStatement (condition thenBranch : Node) (elseBranch? : Option Node) :
    Voiced (ifStatement print condition thenBranch elseBranch?) := by
  refine (head hprint condition).seq ((Composed.embedded hprint thenBranch).seq ?_)
  refine .option elseBranch? fun n => Composed.line.seq ((Composed.write _).seq (.ite ?_ ?_))
  · exact Composed.space.seq (.discard (hprint _ n))
  · exact .embedded hprint n

theorem Voiced.doStatement (body condition : Node) : Voiced (doStatement print body condition) := by
  have hend : Composed (do
      Print.head print "while" condition
      Print.write ";") := (head hprint condition).composed.seq (.write _)
  refine (write (by decide)).seq ((Composed.embedded hprint body).seq ?_)
  exact .ite (Composed.space.seq hend) (Composed.line.seq hend)

theorem Voiced.forStatement (n : Node) (initial? condition? incrementor? : Option Node)
    (body : Node) : Voiced (forStatement print n initial? condition? incrementor? body) := by
  refine .inScopeOf _ ((write (by decide)).seq ?_)
  refine (Composed.option _ (.forInitializer hprint)).seq ((Composed.forPart hprint _).seq ?_)
  exact (Composed.forPart hprint _).seq ((Composed.write _).seq (.embedded hprint body))

theorem Voiced.forEach (n : Node) {opening : String} (h : opening ≠ "") (keyword : String)
    (initial body : Node) {step : Print Unit} (hstep : Composed step) :
    Voiced (forEach print n opening keyword initial body step) := by
  refine .inScopeOf _ ((write h).seq ((Composed.forInitializer hprint initial).seq ?_))
  exact (Composed.write _).seq (hstep.seq ((Composed.write _).seq (.embedded hprint body)))

theorem Voiced.returnStatement (n? : Option Node) : Voiced (returnStatement print n?) :=
  (write (by decide)).seq
    ((Composed.option n? fun n => Composed.space.seq (.expression hprint n)).seq (.write _))

theorem Voiced.switchStatement (n subject : Node) (clauses : List Node) :
    Voiced (switchStatement print n subject clauses) := by
  refine .inScopeOf _ ((head hprint subject).seq ((Composed.write _).seq (.seq ?_ ?_)))
  · refine .indented (Composed.line.seq (.seq ?_ (.closingComments _)))
    exact .forM clauses fun n => (Composed.caseClause hprint n).seq .line
  · exact Composed.line.seq (.write _)

theorem Voiced.labeledStatement (label : Identifier) (body : Node) :
    Voiced (labeledStatement print label body) := by
  refine .after (.identifier label) fun _ => (write (by decide)).seq ?_
  exact (hprint _ body).bind fun _ => .ite (.write _) .unit

theorem Voiced.tryStatement (body : Node) (handler? finalizer? : Option Node) :
    Voiced (tryStatement print body handler? finalizer?) := by
  refine (write (by decide)).seq ((Settled.block hprint body).composed.seq (.seq ?_ ?_))
  · exact .option handler? fun n => Composed.line.seq (.catchClause hprint n)
  · refine .option finalizer? fun n => Composed.line.seq ((Composed.write _).seq ?_)
    exact (Settled.block hprint n).composed

theorem Voiced.expressionStatement (n : Node) : Voiced (expressionStatement print n) := by
  have hsemicolon : Voiced (Print.write ";") := write (by decide)
  refine ite ((write (by decide)).seq ((Composed.expression hprint n).seq ?_)) ?_
  · exact (Composed.write _).seq hsemicolon.composed
  · exact .after (.expression hprint n) fun _ => hsemicolon

theorem Settled.statementForm (n : Node) : Settled (statementForm print n) := by
  unfold Print.statementForm
  split
  · exact (Voiced.write (by decide)).settled
  · exact block hprint _
  · exact (Voiced.expressionStatement hprint _).settled
  · split
    · exact variableStatement hprint _ _ _
    · exact nothing
  · exact functionDeclaration hprint _ _ _
  · exact classDeclaration hprint _
  · exact enumDeclaration hprint _ _ _
  · exact moduleStatement hprint _
  · exact importDeclaration hprint n _ _ _
  · exact importAssignment _ _ _ _
  · exact exportDeclaration hprint n _ _ _ _
  · exact exportAssignment hprint _ _
  · exact (Voiced.ifStatement hprint _ _ _).settled
  · exact (Voiced.doStatement hprint _ _).settled
  · exact ((Voiced.head hprint _).seq (.embedded hprint _)).settled
  · exact (Voiced.forStatement hprint n _ _ _ _).settled
  · exact (Voiced.forEach hprint n (by decide) _ _ _ (.expression hprint _)).settled
  · exact (Voiced.forEach hprint n (by split <;> decide) _ _ _ (.operand hprint _ _)).settled
  · exact (Voiced.jump (by decide) _).settled
  · exact (Voiced.jump (by decide) _).settled
  · exact (Voiced.returnStatement hprint _).settled
  · exact ((Voiced.head hprint _).seq (.embedded hprint _)).settled
  · exact (Voiced.switchStatement hprint n _ _).settled
  · exact (Voiced.labeledStatement hprint _ _).settled
  · exact ((Voiced.write (by decide)).seq
      ((Composed.expression hprint _).seq (.write _))).settled
  · exact (Voiced.tryStatement hprint _ _ _).settled
  · exact (Voiced.write (by decide)).settled
  · exact nothing

theorem Composed.statement (n : Node) : Composed (statement print n) := by
  have hexports : Composed (Print.declaredExports n) := declaredExports n
  refine ((Settled.statementForm hprint n).commented n.span).bind fun isPrinted => ?_
  refine target fun t => ?_
  exact .ite (hexports.seq (pure isPrinted)) (pure isPrinted)

theorem ComposedNodes.node : ComposedNodes (node print)
  | .operand required besideCoalesce, n =>
      (Composed.operandForm hprint required besideCoalesce n).seq (.pure true)
  | .statement, n => .statement hprint n
  | .binding container?, n => (Composed.bindingTarget hprint container? n).seq (.pure true)
  | .namespace_ isExported, n =>
      (Settled.namespaceDeclaration hprint n isExported).composed.seq (.pure true)

end

theorem ComposedNodes.nodeWithin (fuel : Nat) : ComposedNodes (nodeWithin fuel) := by
  induction fuel with
  | zero => exact fun _ _ => .pure false
  | succ fuel ih => exact ih.node

/-- What is printed of a file after its header. -/
def sourceBody (print : Slot → Node → Print Bool) (f : SourceFile) : Print Unit := do
  let count := prologueLength f.statements
  prologue print (f.statements.take count)
  if (← job).isCommonJS then commonJSPreamble f.statements
  statementList print (f.statements.drop count)
  closingComments f.endOfFile

section
variable {print : Slot → Node → Print Bool} (hprint : ComposedNodes print)
include hprint

theorem Composed.prologue (directives : List Node) : Composed (prologue print directives) := by
  have hlist : Composed (Print.statementList print directives) := statementList hprint _
  exact job (fun j => ite ((write _).seq (line.seq hlist)) hlist) fun _ => rfl

theorem Composed.sourceBody (f : SourceFile) : Composed (sourceBody print f) := by
  refine (prologue hprint _).seq (job (fun j => .when (commonJSPreamble _) ?_) fun _ => rfl)
  exact (statementList hprint _).seq (closingComments _)

end

theorem headerFrom_isInitial (f : SourceFile) (firstToken : Nat) (last? : Option Nat)
    (cs : List Comment) : headerFrom f firstToken last? cs <+: cs := by
  induction cs generalizing last? with
  | nil => exact List.prefix_refl _
  | cons c cs ih =>
      unfold headerFrom
      extract_lets isApart
      split
      · exact List.nil_prefix
      · exact (List.prefix_cons_inj c).mpr (ih _)

theorem headerComments_run (p : PrintPlace) (s : PrintState) :
    headerComments p s =
      let f := p.job.file
      let firstToken := (f.statements.head?.map fun n => n.span.start).getD f.endOfFile
      let header := headerFrom f firstToken none f.comments
      (match header.getLast? with
      | none => pure ()
      | some last =>
          if 2 ≤ f.lineFeedsBetween last.stop firstToken then do
            header.forM fun c => do
              if ← isKept c then
                comment c
                line
            setPending (f.comments.drop header.length)
          else pure () : Print Unit) p s :=
  rfl

theorem annotates_headerComments (p : PrintPlace) {s : PrintState}
    (hs : s.pending = p.job.file.comments) :
    ∃ passed ps, s.pending = passed ++ (headerComments p s).2.pending ∧
      Annotation p.job passed s.writer (headerComments p s).2.writer ps := by
  let f := p.job.file
  let firstToken := (f.statements.head?.map fun n => n.span.start).getD f.endOfFile
  let header := headerFrom f firstToken none f.comments
  rw [headerComments_run]
  dsimp only
  cases header.getLast? with
  | none => exact Annotates.pure p s
  | some last =>
      dsimp only
      split
      · obtain ⟨-, ps, hps⟩ := Notes.forM Notes.header header p s
        have hheader : header ++ f.comments.drop header.length = f.comments :=
          List.prefix_iff_eq_append.mp (headerFrom_isInitial f firstToken none f.comments)
        exact ⟨header, ps, hs.trans hheader.symm, hps⟩
      · exact Annotates.pure p s

theorem sourceFile_uncommented {print : Slot → Node → Print Bool} (hprint : ComposedNodes print)
    (f : SourceFile) (p : PrintPlace) (s : PrintState) :
    sourceFile print f.uncommented p.uncommented s = sourceBody print f p s := by
  rw [← (Composed.sourceBody hprint f).blind p]
  rfl

end Print

/-- Where printing of a job starts. -/
def PrintJob.place (j : PrintJob) : PrintPlace where
  job := j
  scope := Bindings.rootScope
  currentEnum? := none
  target := if j.isCommonJS then .commonJS else .topLevel

/-- The state after the header of a job. -/
def PrintJob.afterHeader (j : PrintJob) : PrintState :=
  (Print.headerComments j.place { pending := j.file.comments }).2

/-- What is printed of a job after its header. -/
def PrintJob.body (j : PrintJob) : Print Unit :=
  Print.sourceBody (Print.nodeWithin j.file.nodeCount) j.file

theorem PrintJob.text_eq (j : PrintJob) :
    j.text = (j.body j.place j.afterHeader).2.writer.finish := rfl

theorem PrintJob.composed_body (j : PrintJob) : Print.Composed j.body :=
  .sourceBody (.nodeWithin j.file.nodeCount) j.file

theorem PrintJob.text_uncommented (j : PrintJob) :
    j.uncommented.text = (j.body j.place { pending := [] }).2.writer.finish := by
  have hrun := Print.sourceFile_uncommented (.nodeWithin j.file.nodeCount) j.file j.place
    { pending := [] }
  exact congrArg (fun run => run.2.writer.finish) hrun

end Erasure
