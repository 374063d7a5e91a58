import Erasure.Syntax.Node

/-!
The nodes right below a node, in the order in which every traversal visits them.
-/

namespace Erasure

/-- The nodes of a function in order: type parameters, parameters, return type, body. -/
def FunctionLike.children (f : FunctionLike) : List Node :=
  f.typeParameters.getD [] ++ f.parameters ++ f.returnType.toList ++ f.body.toList

def Parameter.children (p : Parameter) : List Node :=
  p.decorators ++ [p.name] ++ p.type.toList ++ p.initializer.toList

def ClassLike.children (c : ClassLike) : List Node :=
  c.decorators ++ c.typeParameters.getD [] ++ c.base.toList ++ c.interfaces ++ c.members

namespace Form

/-- The nodes of a form that does not wrap another form. -/
def directChildren : Form → List Node
  | .template _ spans | .templateLiteralType _ spans => spans
  | .arrayLiteral elements _ => elements
  | .objectLiteral properties _ => properties
  | .functionExpr _ _ func | .functionStmt _ _ func | .constructorMember func => [func]
  | .arrowFunction func _ | .functionType func | .constructorType _ func | .functionLike func
  | .callSignature func | .constructSignature func => func.children
  | .classExpr cls | .classStmt cls => [cls]
  | .parenthesized inner => [inner]
  | .typeofExpr operand | .voidExpr operand | .deleteExpr operand | .awaitExpr operand
  | .spread operand | .nonNull operand | .prefixUnary _ operand | .postfixUnary _ operand
  | .spreadProperty operand => [operand]
  | .propertyAccess target _ _ _ => [target]
  | .elementAccess target index _ => [target, index]
  | .call callee typeArguments arguments _ => callee :: typeArguments.getD [] ++ arguments
  | .newExpr callee typeArguments arguments =>
      callee :: typeArguments.getD [] ++ arguments.getD []
  | .taggedTemplate tag typeArguments quasi => tag :: typeArguments.getD [] ++ [quasi]
  | .binary left _ right _ _ => [left, right]
  | .conditional condition whenTrue whenFalse _ => [condition, whenTrue, whenFalse]
  | .yieldExpr _ operand => operand.toList
  | .asExpr operand type | .satisfiesExpr operand type | .typeAssertion type operand =>
      [operand, type]
  | .instantiation operand typeArguments => operand :: typeArguments
  | .templateSpan expression _ => [expression]
  | .propertyAssignment name value => [name, value]
  | .shorthandProperty _ initializer => initializer.toList
  | .methodProperty name func | .getterProperty name func | .setterProperty name func
  | .methodMember name _ func | .getterMember name func | .setterMember name func => [name, func]
  | .computedKey expression => [expression]
  | .blockStmt body | .staticBlock body => [body]
  | .exprStmt expression | .throwStmt expression | .exportAssignment _ expression => [expression]
  | .varStmt _ declarations => [declarations]
  | .interfaceStmt _ _ typeParameters bases members => typeParameters.getD [] ++ bases ++ members
  | .typeAliasStmt _ _ typeParameters type => typeParameters.getD [] ++ [type]
  | .enumStmt _ _ members => members
  | .moduleStmt declaration => [declaration]
  | .importStmt _ _ _ attributes | .exportStmt _ _ _ _ attributes => attributes.toList
  | .ifStmt condition thenBranch elseBranch => condition :: thenBranch :: elseBranch.toList
  | .doStmt body condition => [body, condition]
  | .whileStmt condition body => [condition, body]
  | .forStmt initializer condition incrementor body =>
      initializer.toList ++ condition.toList ++ incrementor.toList ++ [body]
  | .forInStmt initializer expression body | .forOfStmt _ initializer expression body =>
      [initializer, expression, body]
  | .returnStmt expression => expression.toList
  | .withStmt expression body => [expression, body]
  | .switchStmt expression clauses => expression :: clauses
  | .labeledStmt _ body => [body]
  | .tryStmt body handler finalizer => body :: handler.toList ++ finalizer.toList
  | .block statements _ _ | .moduleBlock statements => statements
  | .variableList _ declarations => declarations
  | .variableDeclaration name _ type initializer => name :: type.toList ++ initializer.toList
  | .objectPattern elements => elements
  | .arrayPattern elements _ => elements.filterMap id
  | .bindingElement _ property name initializer =>
      property.toList ++ [name] ++ initializer.toList
  | .caseClause expression statements _ => expression.toList ++ statements
  | .catchClause binding body => binding.toList ++ [body]
  | .importAttributes _ elements => elements
  | .importAttribute _ value => [value]
  | .parameter p => p.children
  | .typeParameter _ _ bound fallback => bound.toList ++ fallback.toList
  | .decorator expression => [expression]
  | .classLike cls => cls.children
  | .heritage _ expression typeArguments => expression :: typeArguments.getD []
  | .propertyMember name _ _ type initializer => name :: type.toList ++ initializer.toList
  | .indexMember parameters type | .indexSignature parameters type => parameters ++ type.toList
  | .enumMember name initializer => name :: initializer.toList
  | .moduleDeclaration _ _ body _ => body.toList
  | .referenceType _ typeArguments | .typeQuery _ typeArguments | .importType _ _ _ typeArguments =>
      typeArguments.getD []
  | .arrayType type | .optionalType type | .restType type | .parenthesizedType type
  | .typeOperator _ type | .namedTupleMember _ _ _ type | .typeTemplateSpan type _ => [type]
  | .tupleType types | .unionType types | .intersectionType types => types
  | .typeLiteral members => members
  | .literalType literal => [literal]
  | .indexedAccessType objectType indexType => [objectType, indexType]
  | .conditionalType checkType extendsType trueType falseType =>
      [checkType, extendsType, trueType, falseType]
  | .inferType bound => [bound]
  | .mappedType _ key nameType _ type => key :: nameType.toList ++ type.toList
  | .predicateType _ _ type => type.toList
  | .propertySignature name _ type => name :: type.toList
  | .methodSignature name _ func => name :: func.children
  | .getterSignature name type => name :: type.toList
  | .setterSignature name parameters => name :: parameters
  | _ => []

/-- The nodes right below a form. -/
def children : Form → List Node
  | .classMember decorators _ member => decorators ++ member.directChildren
  | .typeElement _ element => element.directChildren
  | form => form.directChildren

/-- Parts that belong to the form around them and are not visited on their own. -/
def isInner : Form → Bool
  | .templateSpan _ _ | .propertyAssignment _ _ | .shorthandProperty _ _ | .spreadProperty _
  | .methodProperty _ _ | .getterProperty _ _ | .setterProperty _ _ | .missingProperty
  | .bindingElement _ _ _ _ | .moduleBlock _ | .typeTemplateSpan _ _ => true
  | _ => false

end Form

/-- The nodes visited from a node: its children, with inner parts replaced by theirs. Attributes
of imports and exports are not visited. -/
def Node.visited (n : Node) : List Node :=
  match n.form with
  | .importStmt _ _ _ _ | .exportStmt _ _ _ _ _ => []
  | form => form.children.flatMap fun c => if c.form.isInner then c.form.children else [c]

end Erasure
