import Erasure.Print.Erased

/-!
Trees without their types. What a type consists of is left out, and what stands around types stays
as it is. A type is apart from the syntax around it if it declares nothing there and shares no node
number with it.
-/

namespace Erasure

/-- Stands where a type stood that syntax requires. -/
def Node.blankType : Node := ⟨0, ⟨0, 0⟩, .missingType⟩

mutual

/-- A tree without its types. -/
def Node.untyped : Node → Node
  | ⟨id, span, form⟩ => ⟨id, span, form.untyped⟩

def FunctionLike.untyped : FunctionLike → FunctionLike
  | ⟨isAsync, isGenerator, typeParameters, parameters, _, body⟩ =>
      ⟨isAsync, isGenerator, untypedLists typeParameters, untypedAll parameters, none,
        untypedOption body⟩

def Parameter.untyped : Parameter → Parameter
  | ⟨decorators, modifiers, isRest, name, isOptional, _, initializer⟩ =>
      ⟨untypedAll decorators, modifiers, isRest, name.untyped, isOptional, none,
        untypedOption initializer⟩

def ClassLike.untyped : ClassLike → ClassLike
  | ⟨decorators, modifiers, name, typeParameters, base, _, members⟩ =>
      ⟨untypedAll decorators, modifiers, name, untypedLists typeParameters, untypedOption base, [],
        untypedAll members⟩

/-- A form without its types. The forms of types themselves stay. -/
def Form.untyped : Form → Form
  | .template head spans => .template head (untypedAll spans)
  | .arrayLiteral elements layout => .arrayLiteral (untypedAll elements) layout
  | .objectLiteral properties layout => .objectLiteral (untypedAll properties) layout
  | .functionExpr modifiers name func => .functionExpr modifiers name func.untyped
  | .arrowFunction func isBare => .arrowFunction func.untyped isBare
  | .classExpr cls => .classExpr cls.untyped
  | .parenthesized inner => .parenthesized inner.untyped
  | .propertyAccess target name isOptional breakBeforeDot =>
      .propertyAccess target.untyped name isOptional breakBeforeDot
  | .elementAccess target index isOptional =>
      .elementAccess target.untyped index.untyped isOptional
  | .call callee _ arguments isOptional =>
      .call callee.untyped none (untypedAll arguments) isOptional
  | .newExpr callee _ arguments => .newExpr callee.untyped none (untypedLists arguments)
  | .taggedTemplate tag _ quasi => .taggedTemplate tag.untyped none quasi.untyped
  | .prefixUnary operator operand => .prefixUnary operator operand.untyped
  | .postfixUnary operator operand => .postfixUnary operator operand.untyped
  | .binary left operator right breakBefore breakAfter =>
      .binary left.untyped operator right.untyped breakBefore breakAfter
  | .conditional condition whenTrue whenFalse layout =>
      .conditional condition.untyped whenTrue.untyped whenFalse.untyped layout
  | .typeofExpr operand => .typeofExpr operand.untyped
  | .voidExpr operand => .voidExpr operand.untyped
  | .deleteExpr operand => .deleteExpr operand.untyped
  | .awaitExpr operand => .awaitExpr operand.untyped
  | .yieldExpr isDelegate operand => .yieldExpr isDelegate (untypedOption operand)
  | .spread operand => .spread operand.untyped
  | .asExpr operand _ => .asExpr operand.untyped .blankType
  | .satisfiesExpr operand _ => .satisfiesExpr operand.untyped .blankType
  | .typeAssertion _ operand => .typeAssertion .blankType operand.untyped
  | .nonNull operand => .nonNull operand.untyped
  | .instantiation operand _ => .instantiation operand.untyped []
  | .templateSpan expression literal => .templateSpan expression.untyped literal
  | .propertyAssignment name value => .propertyAssignment name.untyped value.untyped
  | .shorthandProperty name initializer => .shorthandProperty name (untypedOption initializer)
  | .spreadProperty operand => .spreadProperty operand.untyped
  | .methodProperty name func => .methodProperty name.untyped func.untyped
  | .getterProperty name func => .getterProperty name.untyped func.untyped
  | .setterProperty name func => .setterProperty name.untyped func.untyped
  | .computedKey expression => .computedKey expression.untyped
  | .blockStmt block => .blockStmt block.untyped
  | .exprStmt expression => .exprStmt expression.untyped
  | .varStmt modifiers declarations => .varStmt modifiers declarations.untyped
  | .functionStmt modifiers name func => .functionStmt modifiers name func.untyped
  | .classStmt cls => .classStmt cls.untyped
  | .interfaceStmt modifiers name typeParameters _ _ =>
      .interfaceStmt modifiers name (untypedLists typeParameters) [] []
  | .typeAliasStmt modifiers name typeParameters _ =>
      .typeAliasStmt modifiers name (untypedLists typeParameters) .blankType
  | .enumStmt modifiers name members => .enumStmt modifiers name (untypedAll members)
  | .moduleStmt declaration => .moduleStmt declaration.untyped
  | .importStmt modifiers clause specifier attributes =>
      .importStmt modifiers clause specifier (untypedOption attributes)
  | .exportStmt modifiers isTypeOnly clause specifier attributes =>
      .exportStmt modifiers isTypeOnly clause specifier (untypedOption attributes)
  | .exportAssignment isEquals expression => .exportAssignment isEquals expression.untyped
  | .ifStmt condition thenBranch elseBranch =>
      .ifStmt condition.untyped thenBranch.untyped (untypedOption elseBranch)
  | .doStmt body condition => .doStmt body.untyped condition.untyped
  | .whileStmt condition body => .whileStmt condition.untyped body.untyped
  | .forStmt initializer condition incrementor body =>
      .forStmt (untypedOption initializer) (untypedOption condition) (untypedOption incrementor)
        body.untyped
  | .forInStmt initializer expression body =>
      .forInStmt initializer.untyped expression.untyped body.untyped
  | .forOfStmt isAwait initializer expression body =>
      .forOfStmt isAwait initializer.untyped expression.untyped body.untyped
  | .returnStmt expression => .returnStmt (untypedOption expression)
  | .withStmt expression body => .withStmt expression.untyped body.untyped
  | .switchStmt expression clauses => .switchStmt expression.untyped (untypedAll clauses)
  | .labeledStmt label body => .labeledStmt label body.untyped
  | .throwStmt expression => .throwStmt expression.untyped
  | .tryStmt block catchClause finallyBlock =>
      .tryStmt block.untyped (untypedOption catchClause) (untypedOption finallyBlock)
  | .block statements isMultiLine isSingleLine =>
      .block (untypedAll statements) isMultiLine isSingleLine
  | .variableList kind declarations => .variableList kind (untypedAll declarations)
  | .variableDeclaration name isDefinite _ initializer =>
      .variableDeclaration name.untyped isDefinite none (untypedOption initializer)
  | .objectPattern elements => .objectPattern (untypedAll elements)
  | .arrayPattern elements trailingComma => .arrayPattern (untypedHoles elements) trailingComma
  | .bindingElement isRest property name initializer =>
      .bindingElement isRest (untypedOption property) name.untyped (untypedOption initializer)
  | .caseClause expression statements isSingleLine =>
      .caseClause (untypedOption expression) (untypedAll statements) isSingleLine
  | .catchClause binding block => .catchClause (untypedOption binding) block.untyped
  | .importAttributes keyword elements => .importAttributes keyword (untypedAll elements)
  | .importAttribute name value => .importAttribute name value.untyped
  | .functionLike func => .functionLike func.untyped
  | .parameter parameter => .parameter parameter.untyped
  | .typeParameter modifiers name _ _ => .typeParameter modifiers name none none
  | .decorator expression => .decorator expression.untyped
  | .classLike cls => .classLike cls.untyped
  | .heritage isType expression _ => .heritage isType expression.untyped none
  | .classMember decorators modifiers member =>
      .classMember (untypedAll decorators) modifiers member.untyped
  | .propertyMember name isOptional isDefinite _ initializer =>
      .propertyMember name.untyped isOptional isDefinite none (untypedOption initializer)
  | .methodMember name isOptional func => .methodMember name.untyped isOptional func.untyped
  | .constructorMember func => .constructorMember func.untyped
  | .getterMember name func => .getterMember name.untyped func.untyped
  | .setterMember name func => .setterMember name.untyped func.untyped
  | .indexMember parameters _ => .indexMember (untypedAll parameters) none
  | .staticBlock block => .staticBlock block.untyped
  | .enumMember name initializer => .enumMember name.untyped (untypedOption initializer)
  | .moduleDeclaration modifiers name body isGlobal =>
      .moduleDeclaration modifiers name (untypedOption body) isGlobal
  | .moduleBlock statements => .moduleBlock (untypedAll statements)
  | form => form

def untypedAll : List Node → List Node
  | [] => []
  | n :: ns => n.untyped :: untypedAll ns

def untypedOption : Option Node → Option Node
  | none => none
  | some n => some n.untyped

def untypedLists : Option (List Node) → Option (List Node)
  | none => none
  | some ns => some (untypedAll ns)

def untypedHoles : List (Option Node) → List (Option Node)
  | [] => []
  | n :: ns => untypedOption n :: untypedHoles ns

end

/-- A file without its types. -/
def SourceFile.untyped (f : SourceFile) : SourceFile :=
  { f with statements := untypedAll f.statements }

def ImportClause.nameIds (c : ImportClause) : List NodeId :=
  c.name?.toList.map Identifier.id ++
    match c.bindings? with
    | some (.all name) => [name.id]
    | some (.named specifiers) => specifiers.map fun s => s.name.id
    | none => []

namespace Form

/-- The numbers of the names that a form declares. -/
def nameIds : Form → List NodeId
  | .functionExpr _ name _ | .functionStmt _ name _ => name.toList.map Identifier.id
  | .interfaceStmt _ name _ _ _ | .typeAliasStmt _ name _ _ | .enumStmt _ name _
  | .importEqualsStmt _ _ name _ | .typeParameter _ name _ _ => [name.id]
  | .importStmt _ (some clause) _ _ => clause.nameIds
  | .classLike cls => cls.name.toList.map Identifier.id
  | .moduleDeclaration _ (.identifier name) _ _ => [name.id]
  | _ => []

/-- Forms that declare a name in the scope or the class around them. -/
def declaresName : Form → Bool
  | .varStmt _ _ | .variableList _ _ | .functionStmt _ _ _ | .classStmt _
  | .interfaceStmt _ _ _ _ _ | .typeAliasStmt _ _ _ _ | .enumStmt _ _ _ | .moduleDeclaration _ _ _ _
  | .importStmt _ _ _ _ | .importEqualsStmt _ _ _ _ | .classMember _ _ _ => true
  | _ => false

def opensFunction : Form → Bool
  | .functionExpr _ _ _ | .functionLike _ | .arrowFunction _ _ => true
  | _ => false

/-- Forms that declare nothing around them and whose parts stand where they stand. -/
def isPlain : Form → Bool
  | .classExpr _ | .conditionalType _ _ _ _ | .inferType _ => false
  | form => !form.declaresName && !form.opensFunction

/-- Forms with clauses that name types. -/
def hasClauses : Form → Bool
  | .classLike _ | .interfaceStmt _ _ _ _ _ => true
  | _ => false

end Form

/-- A number of a node or of a declared name in a tree. -/
inductive Node.Owns (i : NodeId) : Node → Prop where
  | self {n : Node} (h : n.id = i) : n.Owns i
  | name {n : Node} (h : i ∈ n.form.nameIds) : n.Owns i
  | child {n c : Node} (h : c ∈ n.form.children) (hc : c.Owns i) : n.Owns i

/-- The parts of a class member that are evaluated where the class stands. -/
def Node.memberParts (n : Node) : List Node :=
  match n.form with
  | .classMember decorators _ (.staticBlock _) => decorators
  | .classMember decorators _ member => decorators ++ member.directChildren
  | _ => []

/-- The parts of a class that are evaluated where it stands, all but static blocks. -/
def ClassLike.openParts (c : ClassLike) : List Node :=
  c.decorators ++ c.typeParameters.getD [] ++ c.base.toList ++ c.interfaces ++
    c.members.flatMap Node.memberParts

/-- Syntax that declares nothing in the scope around it: what declares a name stands in a function
or in a static block, and types to be inferred stand in conditional types. -/
inductive Node.SelfContained : Bool → Node → Prop where
  | function {n : Node} {isConditional : Bool} (h : n.form.opensFunction = true) :
      n.SelfContained isConditional
  | class_ {n cls : Node} {isConditional : Bool} (h : n.form = .classExpr cls)
      (hbelow : ∀ m ∈ cls.classLike.openParts, m.SelfContained isConditional) :
      n.SelfContained isConditional
  | conditional {n check extended whenTrue whenFalse : Node} {isConditional : Bool}
      (h : n.form = .conditionalType check extended whenTrue whenFalse)
      (hbelow : ∀ m ∈ n.form.children, m.SelfContained true) : n.SelfContained isConditional
  | infer {n bound : Node} (h : n.form = .inferType bound)
      (hbelow : ∀ m ∈ n.form.children, m.SelfContained true) : n.SelfContained true
  | plain {n : Node} {isConditional : Bool} (h : n.form.isPlain = true)
      (hbelow : ∀ m ∈ n.form.children, m.SelfContained isConditional) :
      n.SelfContained isConditional

/-- Syntax of types apart from the syntax around it, whose numbers are those that satisfy
`outside`. -/
structure Node.Foreign (outside : NodeId → Prop) (t : Node) : Prop where
  isWhole : t.form.isInner = false
  selfContained : t.SelfContained false
  numbers : ∀ i, t.Owns i → ¬ outside i

/-- A type that is apart from the syntax around it. -/
def Node.ForeignType (outside : NodeId → Prop) (t : Node) : Prop :=
  t.Foreign outside ∧ t.form.isTypeSyntax = true

def ForeignTypes (outside : NodeId → Prop) (ts : List Node) : Prop :=
  ∀ t ∈ ts, t.ForeignType outside

/-- Entries of clauses that name types: those of `implements`, and the bases of interfaces. -/
def ForeignClauses (outside : NodeId → Prop) (ts : List Node) : Prop :=
  ∀ t ∈ ts, t.Foreign outside

section
variable (outside : NodeId → Prop)

mutual

/-- A tree of which every type is apart from the rest, whose numbers satisfy `outside`. -/
def Node.Apart : Node → Prop
  | ⟨id, _, form⟩ => outside id ∧ (∀ i ∈ form.nameIds, outside i) ∧ form.Apart

def FunctionLike.Apart : FunctionLike → Prop
  | ⟨_, _, typeParameters, parameters, returnType, body⟩ =>
      ApartLists typeParameters ∧ ApartAll parameters ∧ ForeignTypes outside returnType.toList ∧
        ApartOption body

def Parameter.Apart : Parameter → Prop
  | ⟨decorators, _, _, name, _, type, initializer⟩ =>
      ApartAll decorators ∧ name.Apart ∧ ForeignTypes outside type.toList ∧ ApartOption initializer

def ClassLike.Apart : ClassLike → Prop
  | ⟨decorators, _, _, typeParameters, base, interfaces, members⟩ =>
      ApartAll decorators ∧ ApartLists typeParameters ∧ ApartOption base ∧
        ForeignClauses outside interfaces ∧ ApartAll members

/-- The parts of a form that are no types are apart from the types in them. Types do not stand where
something else is expected. -/
def Form.Apart : Form → Prop
  | .identifier _ | .privateName _ | .thisExpr | .superExpr | .nullLiteral | .booleanLiteral _
  | .numericLiteral _ | .bigIntLiteral _ | .stringLiteral _ _ | .regExpLiteral _
  | .templateLiteral _ _ | .omitted | .metaProperty _ _ | .importExpr | .missingExpr
  | .missingProperty | .identifierKey _ | .stringKey _ _ | .numericKey _ | .bigIntKey _
  | .privateKey _ | .emptyStmt | .importEqualsStmt _ _ _ _ | .namespaceExport _ | .continueStmt _
  | .breakStmt _ | .debuggerStmt | .missingStmt | .bindingIdentifier _ | .semicolonMember => True
  | .template _ ns | .arrayLiteral ns _ | .objectLiteral ns _ | .enumStmt _ _ ns | .block ns _ _
  | .variableList _ ns | .objectPattern ns | .importAttributes _ ns | .moduleBlock ns => ApartAll ns
  | .functionExpr _ _ n | .classExpr n | .parenthesized n | .propertyAccess n _ _ _
  | .prefixUnary _ n | .postfixUnary _ n | .typeofExpr n | .voidExpr n | .deleteExpr n
  | .awaitExpr n | .spread n | .nonNull n | .templateSpan n _ | .spreadProperty n | .computedKey n
  | .blockStmt n | .exprStmt n | .varStmt _ n | .functionStmt _ _ n | .classStmt n | .moduleStmt n
  | .exportAssignment _ n | .labeledStmt _ n | .throwStmt n | .importAttribute _ n | .decorator n
  | .constructorMember n | .staticBlock n => n.Apart
  | .elementAccess m n _ | .binary m _ n _ _ | .propertyAssignment m n | .methodProperty m n
  | .getterProperty m n | .setterProperty m n | .doStmt m n | .whileStmt m n | .withStmt m n
  | .methodMember m _ n | .getterMember m n | .setterMember m n => m.Apart ∧ n.Apart
  | .conditional l m n _ | .forInStmt l m n | .forOfStmt _ l m n => l.Apart ∧ m.Apart ∧ n.Apart
  | .yieldExpr _ n | .shorthandProperty _ n | .importStmt _ _ _ n | .exportStmt _ _ _ _ n
  | .returnStmt n | .moduleDeclaration _ _ n _ => ApartOption n
  | .arrowFunction func _ | .functionLike func => func.Apart
  | .parameter p => p.Apart
  | .classLike cls => cls.Apart
  | .call callee typeArguments arguments _ =>
      callee.Apart ∧ ForeignTypes outside (typeArguments.getD []) ∧ ApartAll arguments
  | .newExpr callee typeArguments arguments =>
      callee.Apart ∧ ForeignTypes outside (typeArguments.getD []) ∧ ApartLists arguments
  | .taggedTemplate tag typeArguments quasi =>
      tag.Apart ∧ ForeignTypes outside (typeArguments.getD []) ∧ quasi.Apart
  | .asExpr operand type | .satisfiesExpr operand type | .typeAssertion type operand =>
      operand.Apart ∧ type.ForeignType outside
  | .instantiation operand typeArguments => operand.Apart ∧ ForeignTypes outside typeArguments
  | .interfaceStmt _ _ typeParameters bases members =>
      ApartLists typeParameters ∧ ForeignClauses outside bases ∧ ForeignTypes outside members
  | .typeAliasStmt _ _ typeParameters type => ApartLists typeParameters ∧ type.ForeignType outside
  | .ifStmt condition thenBranch elseBranch =>
      condition.Apart ∧ thenBranch.Apart ∧ ApartOption elseBranch
  | .forStmt initializer condition incrementor body =>
      ApartOption initializer ∧ ApartOption condition ∧ ApartOption incrementor ∧ body.Apart
  | .switchStmt expression clauses => expression.Apart ∧ ApartAll clauses
  | .tryStmt block handler finalizer => block.Apart ∧ ApartOption handler ∧ ApartOption finalizer
  | .variableDeclaration name _ type initializer =>
      name.Apart ∧ ForeignTypes outside type.toList ∧ ApartOption initializer
  | .arrayPattern elements _ => ApartHoles elements
  | .bindingElement _ property name initializer =>
      ApartOption property ∧ name.Apart ∧ ApartOption initializer
  | .caseClause expression statements _ => ApartOption expression ∧ ApartAll statements
  | .catchClause binding block => ApartOption binding ∧ block.Apart
  | .typeParameter _ _ bound fallback =>
      ForeignTypes outside bound.toList ∧ ForeignTypes outside fallback.toList
  | .heritage _ expression typeArguments =>
      expression.Apart ∧ ForeignTypes outside (typeArguments.getD [])
  | .classMember decorators _ member =>
      ApartAll decorators ∧ member.hasClauses = false ∧ member.Apart
  | .propertyMember name _ _ type initializer =>
      name.Apart ∧ ForeignTypes outside type.toList ∧ ApartOption initializer
  | .indexMember parameters type => ApartAll parameters ∧ ForeignTypes outside type.toList
  | .enumMember name initializer => name.Apart ∧ ApartOption initializer
  | _ => False

def ApartAll : List Node → Prop
  | [] => True
  | n :: ns => n.Apart ∧ ApartAll ns

def ApartOption : Option Node → Prop
  | none => True
  | some n => n.Apart

def ApartLists : Option (List Node) → Prop
  | none => True
  | some ns => ApartAll ns

def ApartHoles : List (Option Node) → Prop
  | [] => True
  | n :: ns => ApartOption n ∧ ApartHoles ns

end
end

/-- No type of a file declares a name outside of it or shares a number with what is outside. -/
def SourceFile.TypesApart (f : SourceFile) : Prop :=
  ∃ outside : NodeId → Prop, ∀ n ∈ f.statements, n.Apart outside

end Erasure
