import Erasure.Syntax.Name

/-!
Syntax trees. There is one kind of node for all of syntax, so that a traversal is one function;
the grammar says which forms occur where. Syntax that only concerns types has forms of its own,
and comments are not part of the tree.
-/

namespace Erasure

mutual

/-- A piece of syntax with its place in the source. -/
structure Node where
  id : NodeId
  span : Span
  form : Form

/-- What a function, a method, or the type of one consists of. -/
structure FunctionLike where
  isAsync : Bool
  isGenerator : Bool
  typeParameters : Option (List Node)
  parameters : List Node
  returnType : Option Node
  /-- A block, or the expression of an arrow function. -/
  body : Option Node

structure Parameter where
  decorators : List Node
  modifiers : Modifiers
  isRest : Bool
  name : Node
  isOptional : Bool
  type : Option Node
  initializer : Option Node

structure ClassLike where
  decorators : List Node
  modifiers : Modifiers
  name : Option Identifier
  typeParameters : Option (List Node)
  base : Option Node
  interfaces : List Node
  members : List Node

inductive Form where
  -- expressions
  | identifier (name : String)
  | privateName (name : String)
  | thisExpr
  | superExpr
  | nullLiteral
  | booleanLiteral (value : Bool)
  | numericLiteral (raw : String)
  | bigIntLiteral (raw : String)
  | stringLiteral (raw value : String)
  | regExpLiteral (raw : String)
  | templateLiteral (raw value : String)
  | template (head : String) (spans : List Node)
  | arrayLiteral (elements : List Node) (layout : ListLayout)
  | objectLiteral (properties : List Node) (layout : ListLayout)
  | functionExpr (modifiers : Modifiers) (name : Option Identifier) (func : Node)
  | arrowFunction (func : FunctionLike) (isBare : Bool)
  | classExpr (cls : Node)
  | parenthesized (inner : Node)
  | propertyAccess (target : Node) (name : MemberName) (isOptional breakBeforeDot : Bool)
  | elementAccess (target index : Node) (isOptional : Bool)
  | call (callee : Node) (typeArguments : Option (List Node)) (arguments : List Node)
      (isOptional : Bool)
  | newExpr (callee : Node) (typeArguments arguments : Option (List Node))
  | taggedTemplate (tag : Node) (typeArguments : Option (List Node)) (template : Node)
  | prefixUnary (operator : TokenKind) (operand : Node)
  | postfixUnary (operator : TokenKind) (operand : Node)
  | binary (left : Node) (operator : TokenKind) (right : Node) (breakBefore breakAfter : Bool)
  | conditional (condition whenTrue whenFalse : Node) (layout : ConditionalLayout)
  | typeofExpr (operand : Node)
  | voidExpr (operand : Node)
  | deleteExpr (operand : Node)
  | awaitExpr (operand : Node)
  | yieldExpr (isDelegate : Bool) (operand : Option Node)
  | spread (operand : Node)
  | omitted
  | asExpr (operand type : Node)
  | satisfiesExpr (operand type : Node)
  | typeAssertion (type operand : Node)
  | nonNull (operand : Node)
  | instantiation (operand : Node) (typeArguments : List Node)
  | metaProperty (keyword : TokenKind) (name : String)
  | importExpr
  | missingExpr
  -- parts of expressions
  | templateSpan (expression : Node) (literal : String)
  | propertyAssignment (name value : Node)
  | shorthandProperty (name : Identifier) (initializer : Option Node)
  | spreadProperty (operand : Node)
  | methodProperty (name func : Node)
  | getterProperty (name func : Node)
  | setterProperty (name func : Node)
  | missingProperty
  -- property keys
  | identifierKey (name : String)
  | stringKey (raw value : String)
  | numericKey (raw : String)
  | bigIntKey (raw : String)
  | computedKey (expression : Node)
  | privateKey (name : String)
  -- statements
  | emptyStmt
  | blockStmt (block : Node)
  | exprStmt (expression : Node)
  | varStmt (modifiers : Modifiers) (declarations : Node)
  | functionStmt (modifiers : Modifiers) (name : Option Identifier) (func : Node)
  | classStmt (cls : Node)
  | interfaceStmt (modifiers : Modifiers) (name : Identifier) (typeParameters : Option (List Node))
      (bases members : List Node)
  | typeAliasStmt (modifiers : Modifiers) (name : Identifier)
      (typeParameters : Option (List Node)) (type : Node)
  | enumStmt (modifiers : Modifiers) (name : Identifier) (members : List Node)
  | moduleStmt (declaration : Node)
  | importStmt (modifiers : Modifiers) (clause : Option ImportClause) (specifier : StringLiteral)
      (attributes : Option Node)
  | importEqualsStmt (modifiers : Modifiers) (isTypeOnly : Bool) (name : Identifier)
      (reference : ModuleReference)
  | exportStmt (modifiers : Modifiers) (isTypeOnly : Bool) (clause : Option ExportClause)
      (specifier : Option StringLiteral) (attributes : Option Node)
  | exportAssignment (isEquals : Bool) (expression : Node)
  | namespaceExport (name : Identifier)
  | ifStmt (condition thenBranch : Node) (elseBranch : Option Node)
  | doStmt (body condition : Node)
  | whileStmt (condition body : Node)
  | forStmt (initializer condition incrementor : Option Node) (body : Node)
  | forInStmt (initializer expression body : Node)
  | forOfStmt (isAwait : Bool) (initializer expression body : Node)
  | continueStmt (label : Option Identifier)
  | breakStmt (label : Option Identifier)
  | returnStmt (expression : Option Node)
  | withStmt (expression body : Node)
  | switchStmt (expression : Node) (clauses : List Node)
  | labeledStmt (label : Identifier) (body : Node)
  | throwStmt (expression : Node)
  | tryStmt (block : Node) (catchClause finallyBlock : Option Node)
  | debuggerStmt
  | missingStmt
  -- parts of statements
  | block (statements : List Node) (isMultiLine isSingleLine : Bool)
  | variableList (kind : VariableKind) (declarations : List Node)
  | variableDeclaration (name : Node) (isDefinite : Bool) (type initializer : Option Node)
  | bindingIdentifier (name : String)
  | objectPattern (elements : List Node)
  | arrayPattern (elements : List (Option Node)) (trailingComma : Bool)
  | bindingElement (isRest : Bool) (property : Option Node) (name : Node)
      (initializer : Option Node)
  | caseClause (expression : Option Node) (statements : List Node) (isSingleLine : Bool)
  | catchClause (binding : Option Node) (block : Node)
  | importAttributes (keyword : TokenKind) (elements : List Node)
  | importAttribute (name : String) (value : Node)
  -- functions and classes
  | functionLike (func : FunctionLike)
  | parameter (parameter : Parameter)
  | typeParameter (modifiers : Modifiers) (name : Identifier) (bound fallback : Option Node)
  | decorator (expression : Node)
  | classLike (cls : ClassLike)
  | heritage (isType : Bool) (expression : Node) (typeArguments : Option (List Node))
  | classMember (decorators : List Node) (modifiers : Modifiers) (member : Form)
  | propertyMember (name : Node) (isOptional isDefinite : Bool) (type initializer : Option Node)
  | methodMember (name : Node) (isOptional : Bool) (func : Node)
  | constructorMember (func : Node)
  | getterMember (name func : Node)
  | setterMember (name func : Node)
  | indexMember (parameters : List Node) (type : Option Node)
  | staticBlock (block : Node)
  | semicolonMember
  -- enums and namespaces
  | enumMember (name : Node) (initializer : Option Node)
  | moduleDeclaration (modifiers : Modifiers) (name : ModuleName) (body : Option Node)
      (isGlobal : Bool)
  | moduleBlock (statements : List Node)
  -- types
  | keywordType (keyword : TokenKind)
  | thisType
  | referenceType (name : EntityName) (typeArguments : Option (List Node))
  | arrayType (element : Node)
  | tupleType (elements : List Node)
  | namedTupleMember (name : Identifier) (isRest isOptional : Bool) (type : Node)
  | optionalType (type : Node)
  | restType (type : Node)
  | unionType (types : List Node)
  | intersectionType (types : List Node)
  | functionType (func : FunctionLike)
  | constructorType (isAbstract : Bool) (func : FunctionLike)
  | typeLiteral (members : List Node)
  | literalType (literal : Node)
  | templateLiteralType (head : String) (spans : List Node)
  | typeTemplateSpan (type : Node) (literal : String)
  | typeQuery (name : EntityName) (typeArguments : Option (List Node))
  | typeOperator (operator : TokenKind) (type : Node)
  | indexedAccessType (objectType indexType : Node)
  | conditionalType (checkType extendsType trueType falseType : Node)
  | inferType (typeParameter : Node)
  | mappedType (readonlyToken : Option TokenKind) (typeParameter : Node) (nameType : Option Node)
      (questionToken : Option TokenKind) (type : Option Node)
  | parenthesizedType (type : Node)
  | predicateType (isAssertion : Bool) (name : Identifier) (type : Option Node)
  | importType (isTypeof : Bool) (argument : StringLiteral) (qualifier : Option EntityName)
      (typeArguments : Option (List Node))
  | missingType
  -- members of object types
  | typeElement (modifiers : Modifiers) (element : Form)
  | propertySignature (name : Node) (isOptional : Bool) (type : Option Node)
  | methodSignature (name : Node) (isOptional : Bool) (func : FunctionLike)
  | callSignature (func : FunctionLike)
  | constructSignature (func : FunctionLike)
  | indexSignature (parameters : List Node) (type : Option Node)
  | getterSignature (name : Node) (type : Option Node)
  | setterSignature (name : Node) (parameters : List Node)

end

/-- A function body that is a block, not an expression. -/
def Form.isBlock : Form → Bool
  | .block _ _ _ => true
  | _ => false

end Erasure
