/-!
The messages that a compilation can report, with their codes and wordings.
-/

namespace Erasure

/-- A cause for a diagnostic. -/
inductive Message where
  | unterminatedString | unterminatedComment | digitExpected | hexDigitExpected | invalidCharacter
  | unterminatedTemplate | unterminatedRegExp | identifierAfterNumber | identifierExpected
  | tokenExpected | unexpectedToken | restParameterNotLast | optionalParameterInitialized
  | requiredAfterOptional | modifierSeen | ambientInitializer | restParameterOptional
  | restParameterInitialized | classMemberExpected | expressionExpected | typeExpected
  | duplicateDefaultClause | emptyDeclarationList | statementExpected | caseExpected
  | typeMemberExpected | enumMemberExpected | variableExpected | argumentExpected
  | propertyExpected | parameterExpected | uninitializedDeclaration | ambientImplementation
  | misplacedModifiers | unexpectedKeyword | mixedOperators | catchExpected | stringLiteralExpected
  | declarationExpected | jsxUnsupported | unnamedClass | unaryBeforePower | assertionBeforePower
  | continueOutsideLoop | breakOutsideLoop | returnOutsideFunction | continueToLabel | breakToLabel
  | enumInitializerRequired | importAssignmentInESModule | exportAssignmentInESModule
  | duplicateIdentifier | duplicateImplementation | redeclaredBlockScoped | unknownName
  | notAssignable | superOutsideDerived | invalidAssignmentTarget | misplacedParameterProperty
  | missingSuperCall | missingImplementation | variableBeforeDeclaration | classBeforeDeclaration
  | enumBeforeDeclaration | assignToReadonly | assignToConstant | assignToImport | typeUsedAsValue
  | valueUsedAsType
  deriving DecidableEq, Inhabited

namespace Message

/-- Every message, in the order in which they are listed. -/
def all : List Message :=
  [.unterminatedString, .unterminatedComment, .digitExpected, .hexDigitExpected, .invalidCharacter,
   .unterminatedTemplate, .unterminatedRegExp, .identifierAfterNumber, .identifierExpected,
   .tokenExpected, .unexpectedToken, .restParameterNotLast, .optionalParameterInitialized,
   .requiredAfterOptional, .modifierSeen, .ambientInitializer, .restParameterOptional,
   .restParameterInitialized, .classMemberExpected, .expressionExpected, .typeExpected,
   .duplicateDefaultClause, .emptyDeclarationList, .statementExpected, .caseExpected,
   .typeMemberExpected, .enumMemberExpected, .variableExpected, .argumentExpected,
   .propertyExpected, .parameterExpected, .uninitializedDeclaration, .ambientImplementation,
   .misplacedModifiers, .unexpectedKeyword, .mixedOperators, .catchExpected,
   .stringLiteralExpected, .declarationExpected, .jsxUnsupported, .unnamedClass, .unaryBeforePower,
   .assertionBeforePower, .continueOutsideLoop, .breakOutsideLoop, .returnOutsideFunction,
   .continueToLabel, .breakToLabel, .enumInitializerRequired, .importAssignmentInESModule,
   .exportAssignmentInESModule, .duplicateIdentifier, .duplicateImplementation,
   .redeclaredBlockScoped, .unknownName, .notAssignable, .superOutsideDerived,
   .invalidAssignmentTarget, .misplacedParameterProperty, .missingSuperCall,
   .missingImplementation, .variableBeforeDeclaration, .classBeforeDeclaration,
   .enumBeforeDeclaration, .assignToReadonly, .assignToConstant, .assignToImport, .typeUsedAsValue,
   .valueUsedAsType]

def code : Message → Nat
  | unterminatedString => 1002
  | unterminatedComment => 1010
  | digitExpected => 1124
  | hexDigitExpected => 1125
  | invalidCharacter => 1127
  | unterminatedTemplate => 1160
  | unterminatedRegExp => 1161
  | identifierAfterNumber => 1351
  | identifierExpected => 1003
  | tokenExpected => 1005
  | unexpectedToken => 1012
  | restParameterNotLast => 1014
  | optionalParameterInitialized => 1015
  | requiredAfterOptional => 1016
  | modifierSeen => 1030
  | ambientInitializer => 1039
  | restParameterOptional => 1047
  | restParameterInitialized => 1048
  | classMemberExpected => 1068
  | expressionExpected => 1109
  | typeExpected => 1110
  | duplicateDefaultClause => 1113
  | emptyDeclarationList => 1123
  | statementExpected => 1128
  | caseExpected => 1130
  | typeMemberExpected => 1131
  | enumMemberExpected => 1132
  | variableExpected => 1134
  | argumentExpected => 1135
  | propertyExpected => 1136
  | parameterExpected => 1138
  | uninitializedDeclaration => 1155
  | ambientImplementation => 1183
  | misplacedModifiers => 1184
  | unexpectedKeyword => 1434
  | mixedOperators => 5076
  | catchExpected => 1472
  | stringLiteralExpected => 1141
  | declarationExpected => 1146
  | jsxUnsupported => 9001
  | unnamedClass => 1211
  | unaryBeforePower => 17006
  | assertionBeforePower => 17007
  | continueOutsideLoop => 1104
  | breakOutsideLoop => 1105
  | returnOutsideFunction => 1108
  | continueToLabel => 1115
  | breakToLabel => 1116
  | enumInitializerRequired => 1061
  | importAssignmentInESModule => 1202
  | exportAssignmentInESModule => 1203
  | duplicateIdentifier => 2300
  | duplicateImplementation => 2393
  | redeclaredBlockScoped => 2451
  | unknownName => 2304
  | notAssignable => 2322
  | superOutsideDerived => 2335
  | invalidAssignmentTarget => 2364
  | misplacedParameterProperty => 2369
  | missingSuperCall => 2377
  | missingImplementation => 2391
  | variableBeforeDeclaration => 2448
  | classBeforeDeclaration => 2449
  | enumBeforeDeclaration => 2450
  | assignToReadonly => 2540
  | assignToConstant => 2588
  | assignToImport => 2632
  | typeUsedAsValue => 2693
  | valueUsedAsType => 2749

/-- The wording of a message; a number in braces stands for an argument. -/
def template : Message → String
  | unterminatedString => "Unterminated string literal."
  | unterminatedComment => "'*/' expected."
  | digitExpected => "Digit expected."
  | hexDigitExpected => "Hexadecimal digit expected."
  | invalidCharacter => "Invalid character."
  | unterminatedTemplate => "Unterminated template literal."
  | unterminatedRegExp => "Unterminated regular expression literal."
  | identifierAfterNumber => "An identifier or keyword cannot immediately follow a numeric literal."
  | identifierExpected => "Identifier expected."
  | tokenExpected => "'\x7b0\x7d' expected."
  | unexpectedToken => "Unexpected token."
  | restParameterNotLast => "A rest parameter must be last in a parameter list."
  | optionalParameterInitialized => "Parameter cannot have question mark and initializer."
  | requiredAfterOptional => "A required parameter cannot follow an optional parameter."
  | modifierSeen => "'\x7b0\x7d' modifier already seen."
  | ambientInitializer => "Initializers are not allowed in ambient contexts."
  | restParameterOptional => "A rest parameter cannot be optional."
  | restParameterInitialized => "A rest parameter cannot have an initializer."
  | classMemberExpected =>
      "Unexpected token. A constructor, method, accessor, or property was expected."
  | expressionExpected => "Expression expected."
  | typeExpected => "Type expected."
  | duplicateDefaultClause =>
      "A 'default' clause cannot appear more than once in a 'switch' statement."
  | emptyDeclarationList => "Variable declaration list cannot be empty."
  | statementExpected => "Declaration or statement expected."
  | caseExpected => "'case' or 'default' expected."
  | typeMemberExpected => "Property or signature expected."
  | enumMemberExpected => "Enum member expected."
  | variableExpected => "Variable declaration expected."
  | argumentExpected => "Argument expression expected."
  | propertyExpected => "Property assignment expected."
  | parameterExpected => "Parameter declaration expected."
  | uninitializedDeclaration => "'\x7b0\x7d' declarations must be initialized."
  | ambientImplementation => "An implementation cannot be declared in ambient contexts."
  | misplacedModifiers => "Modifiers cannot appear here."
  | unexpectedKeyword => "Unexpected keyword or identifier."
  | mixedOperators => "'\x7b0\x7d' and '\x7b1\x7d' operations cannot be mixed without parentheses."
  | catchExpected => "'catch' or 'finally' expected."
  | stringLiteralExpected => "String literal expected."
  | declarationExpected => "Declaration expected."
  | jsxUnsupported => "JSX syntax is not supported."
  | unnamedClass => "A class declaration without the 'default' modifier must have a name."
  | unaryBeforePower =>
      "An unary expression with the '\x7b0\x7d' operator is not allowed in the left-hand side " ++
        "of an exponentiation expression. Consider enclosing the expression in parentheses."
  | assertionBeforePower =>
      "A type assertion expression is not allowed in the left-hand side of an exponentiation " ++
        "expression. Consider enclosing the expression in parentheses."
  | continueOutsideLoop =>
      "A 'continue' statement can only be used within an enclosing iteration statement."
  | breakOutsideLoop =>
      "A 'break' statement can only be used within an enclosing iteration or switch statement."
  | returnOutsideFunction => "A 'return' statement can only be used within a function body."
  | continueToLabel =>
      "A 'continue' statement can only jump to a label of an enclosing iteration statement."
  | breakToLabel => "A 'break' statement can only jump to a label of an enclosing statement."
  | enumInitializerRequired => "Enum member must have initializer."
  | importAssignmentInESModule =>
      "Import assignment cannot be used when targeting ECMAScript modules. Consider using " ++
        "'import * as ns from \"mod\"', 'import \x7ba\x7d from \"mod\"', " ++
        "'import d from \"mod\"', or another module format instead."
  | exportAssignmentInESModule =>
      "Export assignment cannot be used when targeting ECMAScript modules. Consider using " ++
        "'export default' or another module format instead."
  | duplicateIdentifier => "Duplicate identifier '\x7b0\x7d'."
  | duplicateImplementation => "Duplicate function implementation."
  | redeclaredBlockScoped => "Cannot redeclare block-scoped variable '\x7b0\x7d'."
  | unknownName => "Cannot find name '\x7b0\x7d'."
  | notAssignable => "Type '\x7b0\x7d' is not assignable to type '\x7b1\x7d'."
  | superOutsideDerived => "'super' can only be referenced in a derived class."
  | invalidAssignmentTarget =>
      "The left-hand side of an assignment expression must be a variable or a property access."
  | misplacedParameterProperty =>
      "A parameter property is only allowed in a constructor implementation."
  | missingSuperCall => "Constructors for derived classes must contain a 'super' call."
  | missingImplementation =>
      "Function implementation is missing or not immediately following the declaration."
  | variableBeforeDeclaration => "Block-scoped variable '\x7b0\x7d' used before its declaration."
  | classBeforeDeclaration => "Class '\x7b0\x7d' used before its declaration."
  | enumBeforeDeclaration => "Enum '\x7b0\x7d' used before its declaration."
  | assignToReadonly => "Cannot assign to '\x7b0\x7d' because it is a read-only property."
  | assignToConstant => "Cannot assign to '\x7b0\x7d' because it is a constant."
  | assignToImport => "Cannot assign to '\x7b0\x7d' because it is an import."
  | typeUsedAsValue => "'\x7b0\x7d' only refers to a type, but is being used as a value here."
  | valueUsedAsType =>
      "'\x7b0\x7d' refers to a value, but is being used as a type here. Did you mean 'typeof " ++
        "\x7b0\x7d'?"

def ofCode? (code : Nat) : Option Message := all.find? fun m => m.code == code

end Message
end Erasure
