import Erasure.Limits
import Erasure.Scope.Binder
import Erasure.Text.Quoted

/-!
Constant values of enum members. Members are evaluated in source order, so that an initializer can
use the members before it.
-/

namespace Erasure

inductive EnumValue where
  | number (value : Float)
  | string (value : String)

namespace EnumValue

/-- The value as an expression. -/
def expressionText : EnumValue → String
  | number value => Decimal.expressionText value
  | string value => Text.quote value

/-- The value as part of a string. -/
def text : EnumValue → String
  | number value => Decimal.numberText value
  | string value => value

end EnumValue

/-- The values of the members whose value is known, by the node of the member. -/
abbrev EnumValues := Std.TreeMap NodeId EnumValue

namespace EnumValues

/-- The value of the member with a name. -/
def member? (values : EnumValues) (b : Bindings) (owner : SymbolId) (name : String) :
    Option EnumValue := do
  let member ← (b.symbol owner).exports.find? name
  let d ← (b.symbol member).declaration?
  values[d.node]?

/-- A word read as a signed number. -/
def signed (w : BitVec 32) : Float := Float.ofInt w.toInt

/-- The number of places to shift by. -/
def shiftAmount (x : Float) : Nat := (Decimal.toWord32 x).toNat % 32

/-- Bitwise operators work on words. -/
def onWords (op : BitVec 32 → BitVec 32 → BitVec 32) (x y : Float) : Float :=
  signed (op (Decimal.toWord32 x) (Decimal.toWord32 y))

def arithmetic? (operator : TokenKind) (x y : Float) : Option Float :=
  match operator with
  | .plus => some (x + y)
  | .minus => some (x - y)
  | .asterisk => some (x * y)
  | .slash => some (x / y)
  | .percent => some (Decimal.remainder x y)
  | .power => some (Float.pow x y)
  | .bar => some (onWords (· ||| ·) x y)
  | .ampersand => some (onWords (· &&& ·) x y)
  | .caret => some (onWords (· ^^^ ·) x y)
  | .shiftLeft => some (signed (Decimal.toWord32 x <<< shiftAmount y))
  | .shiftRight => some (signed ((Decimal.toWord32 x).sshiftRight (shiftAmount y)))
  | .shiftRightUnsigned => some (Float.ofNat (Decimal.toWord32 x >>> shiftAmount y).toNat)
  | _ => none

/-- A plus sign joins texts if one of its operands is a string. -/
def binary? (operator : TokenKind) : EnumValue → EnumValue → Option EnumValue
  | .number x, .number y => (arithmetic? operator x y).map .number
  | left, right => if operator = .plus then some (.string (left.text ++ right.text)) else none

def unary? (operator : TokenKind) : EnumValue → Option EnumValue
  | .number x =>
      match operator with
      | .minus => some (.number (-x))
      | .plus => some (.number x)
      | .tilde => some (.number (signed (~~~ Decimal.toWord32 x)))
      | _ => none
  | .string _ => none

/-- What stands between two delimiters, if the first is one of some characters. -/
def afterDelimiter? : List Char → Option (List Char)
  | '\x60' :: cs | '\x7d' :: cs => some cs
  | _ => none

/-- The reverse of a text without the delimiter that it starts with. -/
def beforeDelimiterRev? : List Char → Option (List Char)
  | '\x7b' :: '$' :: cs | '\x60' :: cs => some cs
  | _ => none

/-- The text of a part of a template between its delimiters. Parts with escapes have none. -/
def templatePart? (raw : String) : Option String := do
  if raw.toList.contains '\\' then none
  let inner ← afterDelimiter? raw.toList
  let rev ← beforeDelimiterRev? inner.reverse
  return String.ofList rev.reverse

/-- What an initializer is evaluated in: the bindings, the values found so far, and the enum. -/
structure Scope where
  bindings : Bindings
  values : EnumValues
  owner? : Option SymbolId

/-- The enum with a name, looked up where the enum of the initializer is declared. -/
def Scope.enum? (s : Scope) (name : String) : Option SymbolId := do
  let b := s.bindings
  let d? := s.owner?.bind fun owner => (b.symbol owner).declaration?
  let from_ := (d?.map Declaration.scope).getD Bindings.rootScope
  let id ← b.resolve? from_ name SymbolFlags.enum
  if (b.symbol id).has SymbolFlags.enum then some id else none

/-- A member of the enum with a name. -/
def Scope.memberOf? (s : Scope) (target : Node) (name : String) : Option EnumValue := do
  let owner ← s.enum? (← target.identifier?)
  s.values.member? s.bindings owner name

/-- A member of the enum itself, or a number with a name. -/
def Scope.named? (s : Scope) (name : String) : Option EnumValue := do
  if name = "Infinity" then return .number (1.0 / 0.0)
  if name = "NaN" then return .number (0.0 / 0.0)
  s.values.member? s.bindings (← s.owner?) name

/-- One substitution of a template and the text after it. -/
def templateSpan? (evaluate : Node → Option EnumValue) (n : Node) : Option String := do
  match n.form with
  | .templateSpan expression literal =>
      return (← evaluate expression).text ++ (← templatePart? literal)
  | _ => none

/-- The value of an initializer that is nested no deeper than the fuel. -/
def evaluate? (s : Scope) : Nat → Node → Option EnumValue
  | 0, _ => none
  | fuel + 1, n =>
      match n.form with
      | .numericLiteral raw => (Decimal.literalValue? raw).map .number
      | .stringLiteral _ value | .templateLiteral _ value => some (.string value)
      | .template head spans => do
          let first ← templatePart? head
          let rest ← spans.mapM (templateSpan? (evaluate? s fuel))
          return .string (first ++ String.join rest)
      | .parenthesized inner => evaluate? s fuel inner
      | .identifier name => s.named? name
      | .propertyAccess target name _ _ =>
          if name.isPrivate then none else s.memberOf? target name.ident.text
      | .elementAccess target index _ =>
          match index.form with
          | .stringLiteral _ value | .templateLiteral _ value => s.memberOf? target value
          | _ => none
      | .prefixUnary operator operand => do unary? operator (← evaluate? s fuel operand)
      | .binary left operator right _ _ => do
          binary? operator (← evaluate? s fuel left) (← evaluate? s fuel right)
      | _ => none

/-- The value of a member without initializer, after a member with the given value. -/
def increment? : Option EnumValue → Option EnumValue
  | some (.number x) => some (.number (x + 1.0))
  | _ => none

/-- The state between two members: the values so far, and that of the last member if there is
one. -/
structure Progress where
  values : EnumValues
  previous? : Option (Option EnumValue) := none

def evaluateMember (b : Bindings) (owner? : Option SymbolId) (p : Progress) (member : Node) :
    Progress :=
  match member.form with
  | .enumMember _ initializer =>
      let value :=
        match initializer with
        | some e => evaluate? ⟨b, p.values, owner?⟩ (Limits.enumFold + 1) e
        | none =>
            match p.previous? with
            | none => some (.number 0.0)
            | some previous => increment? previous
      let values := match value with
        | some v => p.values.insert member.id v
        | none => p.values
      { values, previous? := some value }
  | _ => p

def evaluateEnum (b : Bindings) (values : EnumValues) (n : Node) : EnumValues :=
  match n.form with
  | .enumStmt _ name members =>
      (members.foldl (evaluateMember b (b.symbolOf? name.id)) { values }).values
  | _ => values

/-- The values of all enum members of a file. -/
def ofFile (f : SourceFile) (b : Bindings) : EnumValues :=
  f.nodes.foldl (evaluateEnum b) {}

end EnumValues
end Erasure
