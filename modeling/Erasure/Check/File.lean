import Erasure.Check.Statement

/-!
The check of a file: one walk that applies all rules.
-/

namespace Erasure

namespace Check
variable (walk : Node → Check Unit)

/-- The increment and decrement operators. -/
def isUpdate (operator : TokenKind) : Bool := operator = .plusPlus || operator = .minusMinus

/-- An element of an object. A short property uses its name, and methods can refer to `super`. -/
def objectElement (n : Node) : Check Unit :=
  match n.form with
  | .shorthandProperty name initial? => do
      valueName name.text name.span
      initial?.forM walk
  | .methodProperty key func | .getterProperty key func | .setterProperty key func => do
      walk key
      function walk .object func
  | _ => walk n

/-- A type. Names in it are not used when the program runs. -/
def type (n : Node) : Check Unit :=
  withReader (fun p => { p with isInType := true }) <| inScopeOf n.id do
    match n.form with
    | .referenceType name _ => typeName name
    | .functionType f | .constructorType _ f => parameterProperties f.parameters false
    | _ => pure ()
    n.visited.forM walk

/-- A member of an object type. -/
def typeElement (n : Node) (element : Form) : Check Unit :=
  inScopeOf n.id do
    match element with
    | .methodSignature _ _ f | .callSignature f | .constructSignature f =>
        parameterProperties f.parameters false
    | _ => pure ()
    n.visited.forM walk

def moduleDeclaration (n : Node) (ms : Modifiers) (name : ModuleName) (body? : Option Node)
    (isGlobal : Bool) : Check Unit :=
  let isForeign := ms.isAmbient || isGlobal || name.identifier?.isNone
  withReader (fun p => { p with isAmbient := p.isAmbient || isForeign, currentEnum? := none }) <|
    inScopeOf n.id <| inFunction {} do
      body?.forM fun body => overloads body.statements
      n.visited.forM walk

/-- One step of the walk: the rules on a node, and the nodes below it. What is wrong with operands
is reported before what is wrong with their operator. -/
def step (n : Node) : Check Unit :=
  let below : Check Unit := n.visited.forM walk
  match n.form with
  | .identifier name => valueName name n.span
  | .superExpr => superReference n.span
  | .binary left operator _ _ _ => do
      below
      if operator.isAssignmentOperator then (left.targetsOfAssignment operator).forM target
  | .prefixUnary operator operand | .postfixUnary operator operand => do
      below
      if isUpdate operator then operand.targetsOfUpdate.forM target
  | .objectLiteral properties _ => properties.forM (objectElement walk)
  | .arrowFunction f _ => arrowFunction walk n f
  | .functionLike _ => function walk .nothing n
  | .classLike c => class_ walk n c
  | .classMember decorators ms member => classMember walk decorators ms member
  | .heritage true _ typeArguments => (typeArguments.getD []).forM walk
  | .variableDeclaration name _ type? initial? => do
      annotated name type? initial?
      below
  | .parameter p => do
      annotated p.name p.type p.initializer
      below
  | .block statements _ _ => inScopeOf n.id do
      overloads statements
      below
  | .caseClause _ statements _ => do
      overloads statements
      below
  | .catchClause _ _ => inScopeOf n.id below
  | .moduleDeclaration ms name body? isGlobal => moduleDeclaration walk n ms name body? isGlobal
  | .typeElement _ element => typeElement walk n element
  | .typeParameter _ _ _ _ => below
  | form =>
      if form.isTypeSyntax then type walk n
      else withModifiers (form.modifiers?.getD {}) (statementForm walk n)

/-- The walk over a node, as deep as the fuel allows. -/
def walkNode : Nat → Node → Check Unit
  | 0, _ => pure ()
  | fuel + 1, n => step (walkNode fuel) n

end Check

/-- The errors of a file. Nodes on a path have different numbers, so their count bounds its
length. -/
def SourceFile.check (f : SourceFile) (b : Bindings) (o : Options) : List Diagnostic :=
  let job : CheckJob := {
    file := f, bindings := b, options := o, enumValues := EnumValues.ofFile f b }
  let place : CheckPlace := {
    job, scope := Bindings.rootScope, isAmbient := f.fileName.endsWith ".d.ts" }
  let step : Check Unit := do
    Check.overloads f.statements
    f.statements.forM (Check.walkNode f.nodeCount)
  (step.run place {}).2.errorsRev.reverse

end Erasure
