import Erasure.Check.Function
import Erasure.Check.Reference
import Erasure.Check.Target

/-!
Checks on statements: jumps have a target, `return` stands in a function, enum members have values,
and module syntax fits the output.
-/

namespace Erasure

namespace JumpTarget

def isIteration : JumpTarget → Bool
  | iteration => true
  | _ => false

/-- Statements that `break` leaves without naming them. -/
def isBreakable : JumpTarget → Bool
  | iteration | switch => true
  | label _ _ => false

def isLabeled (name : String) : JumpTarget → Bool
  | label other _ => other = name
  | _ => false

/-- A label that `continue` can name. -/
def isLabeledIteration (name : String) : JumpTarget → Bool
  | label other isIteration => isIteration && other = name
  | _ => false

end JumpTarget

mutual

/-- A loop, or a label on one. -/
def Node.isIteration : Node → Bool
  | ⟨_, _, form⟩ => form.isIteration

def Form.isIteration : Form → Bool
  | .labeledStmt _ body => body.isIteration
  | .doStmt _ _ | .whileStmt _ _ | .forStmt _ _ _ _ | .forInStmt _ _ _ | .forOfStmt _ _ _ _ => true
  | _ => false

end

/-- The message for a `break` that has no target among those around it. -/
def breakError? (targets : List JumpTarget) : Option Identifier → Option Message
  | none => if targets.any JumpTarget.isBreakable then none else some .breakOutsideLoop
  | some label => if targets.any (JumpTarget.isLabeled label.text) then none else some .breakToLabel

/-- The message for a `continue` that has no target among those around it. -/
def continueError? (targets : List JumpTarget) : Option Identifier → Option Message
  | none => if targets.any JumpTarget.isIteration then none else some .continueOutsideLoop
  | some label =>
      if targets.any (JumpTarget.isLabeledIteration label.text) then none
      else some .continueToLabel

/-- Module systems in which imports and exports cannot be assignments. -/
def ModuleKind.forbidsAssignments (m : ModuleKind) : Bool :=
  m.isESModule && m ≠ .preserve && m ≠ .none

/-- Members without initializer that follow one whose value is not a number. -/
def unnumberedMembers (values : EnumValues) : Option NodeId → List Node → List Span
  | _, [] => []
  | previous?, n :: ns =>
      let isAfterNumber := previous?.all fun previous =>
        match values[previous]? with
        | some (.number _) => true
        | _ => false
      let span? := match n.form with
        | .enumMember key none => if isAfterNumber then none else some key.span
        | _ => none
      span?.toList ++ unnumberedMembers values (some n.id) ns

namespace Check

def jump (span : Span) (m? : Option Message) : Check Unit :=
  m?.forM fun m => error m span []

/-- Assignments of modules are not allowed for some outputs. -/
def moduleAssignment (m : Message) (span : Span) : Check Unit := do
  let p ← read
  if !p.isAmbient && p.job.options.moduleKind.forbidsAssignments then error m span []

def exportList (specifiers : List ExportSpecifier) : Check Unit :=
  specifiers.forM fun s =>
    match s.source with
    | .identifier name => if s.isTypeOnly then pure () else exportedName name.text name.span
    | .string _ => pure ()

section
variable (walk : Node → Check Unit)

/-- A `return`. The error is reported at the keyword. -/
def returnStatement (n : Node) (value? : Option Node) : Check Unit := do
  let p ← read
  let keyword : Span := ⟨n.span.start, n.span.start + 6⟩
  if !p.function.isFunction && !p.function.isStaticBlock then
    error .returnOutsideFunction keyword []
  else match value?, p.function.returnType? with
    | some value, some type => if !p.isAmbient then assignable value type keyword
    | _, _ => pure ()
  value?.forM walk

/-- A loop with a scope of its own. -/
def loop (n : Node) (head? : Option Node) : Check Unit :=
  inScopeOf n.id do
    head?.forM fun head => head.targetsOfLoop.forM target
    withTarget .iteration (n.visited.forM walk)

def enumStatement (name : Identifier) (members : List Node) : Check Unit := do
  let p ← read
  let owner? := p.job.bindings.symbolOf? name.id
  withReader (fun p => { p with currentEnum? := owner? }) do
    if !p.isAmbient then
      (unnumberedMembers p.job.enumValues none members).forM fun span =>
        error .enumInitializerRequired span []
    members.forM walk

def exportAssignment (n : Node) (isEquals : Bool) (value : Node) : Check Unit := do
  if isEquals then moduleAssignment .exportAssignmentInESModule n.span
  match value.identifier? with
  | some name => exportedName name value.span
  | none => walk value

/-- The target of a loop head that declares nothing. -/
def loopHead? (n : Node) : Option Node :=
  match n.form with
  | .variableList _ _ => none
  | _ => some n

/-- A statement by its form. Forms without rules of their own only have parts. -/
def statementForm (n : Node) : Check Unit :=
  let below : Check Unit := n.visited.forM walk
  match n.form with
  | .returnStmt value? => returnStatement walk n value?
  | .breakStmt label? => do jump n.span (breakError? (← read).jumpTargets label?)
  | .continueStmt label? => do jump n.span (continueError? (← read).jumpTargets label?)
  | .doStmt _ _ | .whileStmt _ _ => withTarget .iteration below
  | .forStmt _ _ _ _ => loop walk n none
  | .forInStmt head _ _ | .forOfStmt _ head _ _ => loop walk n (loopHead? head)
  | .switchStmt subject clauses => do
      walk subject
      inScopeOf n.id (withTarget .switch (clauses.forM walk))
  | .labeledStmt label body => withTarget (.label label.text body.isIteration) (walk body)
  | .enumStmt _ name members => enumStatement walk name members
  | .interfaceStmt _ _ _ _ _ | .typeAliasStmt _ _ _ _ => inScopeOf n.id below
  | .importEqualsStmt _ isTypeOnly _ (.external _) =>
      if isTypeOnly then pure () else moduleAssignment .importAssignmentInESModule n.span
  | .exportAssignment isEquals value => exportAssignment walk n isEquals value
  | .exportStmt _ false (some (.named specifiers)) none _ => exportList specifiers
  | .withStmt object body => do
      walk object
      withReader (fun p => { p with isInWith := true }) (walk body)
  | _ => below

end
end Check
end Erasure
