import Erasure.Span
import Erasure.Text.Quoted

/-!
Types of literals, and which of them an annotation accepts. Both are small: only what literals and
annotations of primitive types, their arrays and unions can say. Numbers are of any type that has a
test for equality.
-/

namespace Erasure

/-- The type of an expression as far as its syntax tells. -/
inductive ValueType (N : Type) where
  /-- A string, with its value unless it is put together. -/
  | string (value? : Option String)
  | number (value : N)
  /-- An integer by its decimal digits, after a sign if it is negative. -/
  | bigInt (digits : String)
  /-- A truth value, which is not known for a negation. -/
  | boolean (value? : Option Bool)
  | null
  | undefined
  | array (elements : List (Span × ValueType N))
  | object (members : List (String × ValueType N))

/-- A type that an annotation states. -/
inductive StatedType (N : Type) where
  | any | unknown | string | number | bigInt | boolean | symbol | nonPrimitive | void | undefined
  | null | never
  | stringLiteral (value : String)
  | numberLiteral (value : N)
  | bigIntLiteral (digits : String)
  | booleanLiteral (value : Bool)
  | array (element : StatedType N)
  | union (members : List (StatedType N))

namespace ValueType

/-- The name of the primitive type that a type widens to. -/
def primitive? {N : Type} : ValueType N → Option String
  | string _ => some "string"
  | number _ => some "number"
  | bigInt _ => some "bigint"
  | boolean _ => some "boolean"
  | _ => none

end ValueType

namespace StatedType

variable {N : Type}

section
variable [BEq N]

mutual

/-- Equality up to the one of numbers. -/
def same : StatedType N → StatedType N → Bool
  | any, any | unknown, unknown | string, string | number, number | bigInt, bigInt
  | boolean, boolean | symbol, symbol | nonPrimitive, nonPrimitive | void, void
  | undefined, undefined | null, null | never, never => true
  | stringLiteral v, stringLiteral w => v == w
  | numberLiteral v, numberLiteral w => v == w
  | bigIntLiteral v, bigIntLiteral w => v == w
  | booleanLiteral v, booleanLiteral w => v == w
  | array s, array t => same s t
  | union s, union t => sameAll s t
  | _, _ => false

def sameAll : List (StatedType N) → List (StatedType N) → Bool
  | [], [] => true
  | s :: ss, t :: ts => same s t && sameAll ss ts
  | _, _ => false

end

instance : BEq (StatedType N) := ⟨same⟩

end

def isNever : StatedType N → Bool
  | never => true
  | _ => false

/-- What is left out of unions if null is in every type. -/
def isNullish : StatedType N → Bool
  | null | undefined => true
  | _ => false

section
variable [BEq N]

/-- Acceptance by an annotation that is neither an array nor a union. Without strict null checks,
null is in every type that has a value. -/
def acceptsPlain (strict : Bool) (t : StatedType N) : ValueType N → Bool
  | .null =>
      match t with
      | any | unknown | null => true
      | _ => !strict && !t.isNever
  | .undefined =>
      match t with
      | any | unknown | undefined | void => true
      | _ => !strict && !t.isNever
  | .string value? =>
      match t with
      | any | unknown | string => true
      | stringLiteral literal => value? == some literal
      | _ => false
  | .number value =>
      match t with
      | any | unknown | number => true
      | numberLiteral literal => literal == value
      | _ => false
  | .bigInt digits =>
      match t with
      | any | unknown | bigInt => true
      | bigIntLiteral literal => literal == digits
      | _ => false
  | .boolean value? =>
      match t with
      | any | unknown | boolean => true
      | booleanLiteral literal => value? == some literal
      | _ => false
  | .array _ | .object _ =>
      match t with
      | any | unknown | nonPrimitive => true
      | _ => false

mutual

/-- Whether an annotation accepts a value. For a truth value that is not known, the two it can have
may be accepted by different members of a union. -/
def accepts (strict : Bool) : StatedType N → ValueType N → Bool
  | union members, .boolean none =>
      acceptedByAny strict members (.boolean (some true)) &&
        acceptedByAny strict members (.boolean (some false))
  | union members, s => acceptedByAny strict members s
  | array element, .array elements => elements.all fun e => accepts strict element e.2
  | t, s => acceptsPlain strict t s

def acceptedByAny (strict : Bool) : List (StatedType N) → ValueType N → Bool
  | [], _ => false
  | t :: ts, s => accepts strict t s || acceptedByAny strict ts s

end

end

mutual

/-- The members of an annotation that is read as a union, without unions among them. -/
def alternatives : StatedType N → List (StatedType N)
  | union members => alternativesOf members
  | t => [t]

def alternativesOf : List (StatedType N) → List (StatedType N)
  | [] => []
  | t :: ts => alternatives t ++ alternativesOf ts

end

def isArray : StatedType N → Bool
  | array _ => true
  | _ => false

def isUnion : StatedType N → Bool
  | union _ => true
  | _ => false

def isStringLiteral : StatedType N → Bool
  | stringLiteral _ => true
  | _ => false

def isBooleanLiteral : StatedType N → Bool
  | booleanLiteral _ => true
  | _ => false

/-- The primitive type that a literal type is part of. -/
def widened? : StatedType N → Option (StatedType N)
  | stringLiteral _ => some string
  | numberLiteral _ => some number
  | bigIntLiteral _ => some bigInt
  | booleanLiteral _ => some boolean
  | _ => none

/-- The place of a member in a union. -/
def rank : StatedType N → Nat
  | any => 0
  | unknown => 1
  | string => 2
  | number => 3
  | bigInt => 4
  | booleanLiteral false => 5
  | booleanLiteral true => 6
  | boolean => 7
  | symbol => 8
  | void => 9
  | never => 10
  | nonPrimitive => 11
  | stringLiteral _ | numberLiteral _ | bigIntLiteral _ => 12
  | array _ | union _ => 13
  | null => 14
  | undefined => 15

section
variable [BEq N]

/-- The first of equal members. -/
def distinct (ts : List (StatedType N)) : List (StatedType N) :=
  ts.foldl (fun kept t => if kept.contains t then kept else kept ++ [t]) []

/-- Write both truth values as one type. -/
def mergeBooleans (ts : List (StatedType N)) : List (StatedType N) :=
  if ts.contains (booleanLiteral true) && ts.contains (booleanLiteral false) then
    let others := ts.filter fun t => !t.isBooleanLiteral
    if others.contains boolean then others else others ++ [boolean]
  else ts

/-- Leave out the literals whose primitive type is a member too. -/
def absorbLiterals (ts : List (StatedType N)) : List (StatedType N) :=
  ts.filter fun t => !(t.widened?.any ts.contains)

/-- Leave out null where it is in every type, unless nothing else is left. -/
def dropNullish (strict : Bool) (ts : List (StatedType N)) : List (StatedType N) :=
  if !strict && ts.any (fun t => !t.isNullish) then ts.filter fun t => !t.isNullish else ts

/-- The members of a union as they are displayed. -/
def normalized (strict : Bool) (t : StatedType N) : List (StatedType N) :=
  (dropNullish strict (absorbLiterals (mergeBooleans (distinct t.alternatives)))).mergeSort
    fun s t => s.rank ≤ t.rank

/-- Types with a single value. -/
def isUnit (strict : Bool) : StatedType N → Bool
  | stringLiteral _ | numberLiteral _ | bigIntLiteral _ | booleanLiteral _ => true
  | null | undefined => strict
  | _ => false

def isBoolean : StatedType N → Bool
  | boolean => true
  | _ => false

/-- Whether a type with a single value is among the members of an annotation. In a union, truth
values count as two of them. -/
def hasUnit (strict : Bool) : StatedType N → Bool
  | union members => (normalized strict (union members)).any fun t => t.isBoolean || t.isUnit strict
  | t => t.isUnit strict

mutual

/-- Number of constructors. -/
def size : StatedType N → Nat
  | array element => element.size + 1
  | union members => sizeOfAll members + 1
  | _ => 1

def sizeOfAll : List (StatedType N) → Nat
  | [] => 0
  | t :: ts => t.size + sizeOfAll ts

end

/-- The text of an annotation that is neither an array nor a union. -/
def plainText (numberText : N → String) : StatedType N → String
  | any => "any"
  | unknown => "unknown"
  | string => "string"
  | number => "number"
  | bigInt => "bigint"
  | boolean => "boolean"
  | symbol => "symbol"
  | nonPrimitive => "object"
  | void => "void"
  | undefined => "undefined"
  | null => "null"
  | never => "never"
  | stringLiteral value => Text.quote value
  | numberLiteral value => numberText value
  | bigIntLiteral digits => digits ++ "n"
  | booleanLiteral value => if value then "true" else "false"
  | array _ | union _ => ""

/-- The text of an annotation that is nested no deeper than the fuel. -/
def textWithin (numberText : N → String) (strict : Bool) : Nat → StatedType N → String
  | 0, _ => ""
  | fuel + 1, array element =>
      let text := textWithin numberText strict fuel element
      if element.isUnion && 1 < (normalized strict element).length then "(" ++ text ++ ")[]"
      else text ++ "[]"
  | fuel + 1, union members =>
      " | ".intercalate
        ((normalized strict (union members)).map (textWithin numberText strict fuel))
  | _ + 1, t => t.plainText numberText

/-- The text of an annotation in a message. -/
def text (numberText : N → String) (strict : Bool) (t : StatedType N) : String :=
  textWithin numberText strict t.size t

end

end StatedType

namespace ValueType
variable {N : Type}

/-- The text of an array type. Only arrays of primitive types have one. -/
def arrayText? (elements : List (Span × ValueType N)) : Option String := do
  let names ← elements.mapM fun e => e.2.primitive?
  let present := ["string", "number", "bigint", "boolean"].filter names.contains
  match present with
  | [] => none
  | [name] => return name ++ "[]"
  | _ => return "(" ++ " | ".intercalate present ++ ")[]"

/-- The text of an object type whose members are primitive. -/
def objectText? (members : List (String × ValueType N)) : Option String := do
  let parts ← members.mapM fun m => do return m.1 ++ ": " ++ (← m.2.primitive?) ++ "; "
  return if members.isEmpty then "\x7b\x7d" else "\x7b " ++ "".intercalate parts ++ "\x7d"

/-- The text of a type in a message. Literals are written out on demand only. -/
def text? (numberText : N → String) (keepsLiterals : Bool) : ValueType N → Option String
  | .string (some value) => some (if keepsLiterals then Text.quote value else "string")
  | .string none => some "string"
  | .number value => some (if keepsLiterals then numberText value else "number")
  | .bigInt digits => some (if keepsLiterals then digits ++ "n" else "bigint")
  | .boolean (some value) =>
      some (if keepsLiterals then (if value then "true" else "false") else "boolean")
  | .boolean none => some "boolean"
  | .null => some "null"
  | .undefined => some "undefined"
  | .array elements => arrayText? elements
  | .object members => objectText? members

end ValueType

/-- A value that an annotation does not accept, with the texts of both. -/
structure Mismatch where
  span : Span
  source : String
  target : String
  deriving DecidableEq

namespace StatedType
variable {N : Type} [BEq N]

/-- Values for which no text is known to describe what is wrong. -/
def isVague (t : StatedType N) : ValueType N → Bool
  | .array _ | .object _ => t.alternatives.any isArray
  | .string none => t.alternatives.any isStringLiteral
  | _ => false

/-- The mismatch of a value as a whole. -/
def mismatch? (numberText : N → String) (strict : Bool) (t : StatedType N) (s : ValueType N)
    (span : Span) : Option Mismatch := do
  if t.isVague s then none
  else return {
    span, source := ← s.text? numberText (t.hasUnit strict), target := t.text numberText strict }

/-- Where a value is not accepted. In arrays it is the elements that are at fault. -/
def mismatches (numberText : N → String) (strict : Bool) :
    StatedType N → ValueType N → Span → List Mismatch
  | array element, .array elements, _ =>
      elements.flatMap fun e => mismatches numberText strict element e.2 e.1
  | t, s, span =>
      if t.accepts strict s then [] else (t.mismatch? numberText strict s span).toList

end StatedType
end Erasure
