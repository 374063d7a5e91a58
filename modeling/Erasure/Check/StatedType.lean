import Erasure.Check.LiteralType
import Erasure.Syntax.SourceFile

/-!
Reading the types of literals and annotations off the syntax. Syntax that is not understood has no
type, and what has no type is not checked.
-/

namespace Erasure

/-- The decimal digits of an integer literal without leading zeros; only decimal ones have any. -/
def bigIntDigits? (raw : String) : Option String :=
  match raw.toList.reverse with
  | 'n' :: rest =>
      let digits := (rest.reverse.filter (· ≠ '_'))
      if digits.isEmpty || !digits.all Text.isAsciiDigit then none
      else match digits.dropWhile (· = '0') with
        | [] => some "0"
        | significant => some (String.ofList significant)
  | _ => none

/-- A number or integer literal after a sign. -/
inductive SignedLiteral where
  | number (value : Float)
  | bigInt (digits : String)

namespace SignedLiteral

def ofForm? (operator : TokenKind) (operand : Form) : Option SignedLiteral :=
  match operator, operand with
  | .minus, .numericLiteral raw => (Decimal.literalValue? raw).map fun x => .number (-x)
  | .plus, .numericLiteral raw => (Decimal.literalValue? raw).map .number
  | .minus, .bigIntLiteral raw =>
      (bigIntDigits? raw).map fun digits => .bigInt (if digits = "0" then digits else "-" ++ digits)
  | _, _ => none

def valueType : SignedLiteral → ValueType Float
  | number value => .number value
  | bigInt digits => .bigInt digits

def statedType : SignedLiteral → StatedType Float
  | number value => .numberLiteral value
  | bigInt digits => .bigIntLiteral digits

end SignedLiteral

mutual

/-- The type of an expression. The name `undefined` has its own type unless it is declared. -/
def Node.valueType? (isUndefinedDeclared : Bool) : Node → Option (ValueType Float)
  | ⟨_, _, form⟩ => form.valueType? isUndefinedDeclared

def Form.valueType? (isUndefinedDeclared : Bool) : Form → Option (ValueType Float)
  | .parenthesized inner => inner.valueType? isUndefinedDeclared
  | .stringLiteral _ value | .templateLiteral _ value => some (.string (some value))
  | .template _ _ => some (.string none)
  | .numericLiteral raw => (Decimal.literalValue? raw).map .number
  | .bigIntLiteral raw => (bigIntDigits? raw).map .bigInt
  | .prefixUnary .exclamation _ => some (.boolean none)
  | .prefixUnary operator operand =>
      (SignedLiteral.ofForm? operator operand.form).map SignedLiteral.valueType
  | .booleanLiteral value => some (.boolean (some value))
  | .nullLiteral => some .null
  | .voidExpr _ => some .undefined
  | .identifier name => if name = "undefined" && !isUndefinedDeclared then some .undefined else none
  | .arrayLiteral elements _ => (elementTypes? isUndefinedDeclared elements).map .array
  | .objectLiteral properties _ => (propertyTypes? isUndefinedDeclared properties).map .object
  | _ => none

def elementTypes? (isUndefinedDeclared : Bool) : List Node → Option (List (Span × ValueType Float))
  | [] => some []
  | n :: ns => do
      let type ← n.valueType? isUndefinedDeclared
      return (n.span, type) :: (← elementTypes? isUndefinedDeclared ns)

def propertyTypes? (isUndefinedDeclared : Bool) :
    List Node → Option (List (String × ValueType Float))
  | [] => some []
  | n :: ns => do
      let member ← n.memberType? isUndefinedDeclared
      return member :: (← propertyTypes? isUndefinedDeclared ns)

/-- The name and the type of a member, which has to be primitive. -/
def Node.memberType? (isUndefinedDeclared : Bool) : Node → Option (String × ValueType Float)
  | ⟨_, _, form⟩ => form.memberType? isUndefinedDeclared

def Form.memberType? (isUndefinedDeclared : Bool) : Form → Option (String × ValueType Float)
  | .propertyAssignment key value =>
      match key.form with
      | .identifierKey name => do
          let type ← value.valueType? isUndefinedDeclared
          if type.primitive?.isSome then return (name, type) else none
      | _ => none
  | _ => none

end

/-- The annotation of a keyword. -/
def keywordStated? : TokenKind → Option (StatedType Float)
  | .anyKw => some .any
  | .unknownKw => some .unknown
  | .stringKw => some .string
  | .numberKw => some .number
  | .bigintKw => some .bigInt
  | .booleanKw => some .boolean
  | .symbolKw => some .symbol
  | .objectKw => some .nonPrimitive
  | .voidKw => some .void
  | .undefinedKw => some .undefined
  | .nullKw => some .null
  | .neverKw => some .never
  | _ => none

/-- The annotation of a literal type. -/
def literalStated? : Form → Option (StatedType Float)
  | .stringLiteral _ value | .templateLiteral _ value => some (.stringLiteral value)
  | .numericLiteral raw => (Decimal.literalValue? raw).map .numberLiteral
  | .bigIntLiteral raw => (bigIntDigits? raw).map .bigIntLiteral
  | .prefixUnary operator operand =>
      (SignedLiteral.ofForm? operator operand.form).map SignedLiteral.statedType
  | .booleanLiteral value => some (.booleanLiteral value)
  | .nullLiteral => some .null
  | _ => none

/-- A reference to the type of arrays. -/
def EntityName.isArray (name : EntityName) : Bool :=
  name.isSimple && name.first?.any fun first => first.text = "Array"

/-- A member of a union, or its members if it is one itself. -/
def StatedType.unionMembers : StatedType Float → List (StatedType Float)
  | .union members => members
  | t => [t]

mutual

/-- What a type says as an annotation. `Array` names the type of arrays unless it is declared. -/
def Node.statedType? (isArrayDeclared : Bool) : Node → Option (StatedType Float)
  | ⟨_, _, form⟩ => form.statedType? isArrayDeclared

def Form.statedType? (isArrayDeclared : Bool) : Form → Option (StatedType Float)
  | .keywordType keyword => keywordStated? keyword
  | .literalType literal => literalStated? literal.form
  | .parenthesizedType type => type.statedType? isArrayDeclared
  | .arrayType element => (element.statedType? isArrayDeclared).map .array
  | .unionType types => (statedTypes? isArrayDeclared types).map .union
  | .referenceType name (some [argument]) =>
      if name.isArray && !isArrayDeclared then
        (argument.statedType? isArrayDeclared).map .array
      else none
  | _ => none

def statedTypes? (isArrayDeclared : Bool) : List Node → Option (List (StatedType Float))
  | [] => some []
  | n :: ns => do
      let t ← n.statedType? isArrayDeclared
      return t.unionMembers ++ (← statedTypes? isArrayDeclared ns)

end
end Erasure
