import Erasure.Decimal.Shortest
import Erasure.Text.Character

/-!
Numbers as text: the value of a numeric literal and the text of a number.
-/

namespace Erasure.Decimal

/-- The value of digits in a base, accumulated in double precision. -/
def radixValue? (radix : Nat) (digits : List Char) : Option Float :=
  digits.foldlM (fun (value : Float) (c : Char) =>
    let digit := Text.hexDigitValue c
    if Text.isHexDigit c && digit < radix then some (value * radix.toFloat + digit.toFloat)
    else none) 0

def natOfDigits (digits : List Char) : Nat :=
  digits.foldl (fun n c => n * 10 + (c.toNat - '0'.toNat)) 0

/-- The exponent at the end of a decimal number. -/
def exponent? : List Char → Option Int
  | [] => some 0
  | 'e' :: rest =>
      let (negative, digits) := match rest with
        | '+' :: ds => (false, ds)
        | '-' :: ds => (true, ds)
        | ds => (false, ds)
      if !digits.isEmpty && digits.all Text.isAsciiDigit then
        let n := natOfDigits digits
        some (if negative then -n else n)
      else none
  | _ => none

/-- The value of an unsigned decimal number, or of a word for a value that is no number. -/
def unsigned? (text : List Char) : Option Float :=
  if text = "inf".toList || text = "infinity".toList then some (floatOfBits infinityBits)
  else if text = "nan".toList then some (0.0 / 0.0)
  else
    let whole := text.takeWhile Text.isAsciiDigit
    let afterWhole := text.dropWhile Text.isAsciiDigit
    let (fraction, rest) := match afterWhole with
      | '.' :: more => (more.takeWhile Text.isAsciiDigit, more.dropWhile Text.isAsciiDigit)
      | more => ([], more)
    if whole.isEmpty && fraction.isEmpty then none
    else (exponent? rest).map fun exponent =>
      floatOfDecimal (natOfDigits (whole ++ fraction)) (exponent - fraction.length)

/-- The value of a decimal number in lower case. -/
def decimal? : List Char → Option Float
  | '-' :: text => (unsigned? text).map fun x => -x
  | '+' :: text => unsigned? text
  | text => unsigned? text

/-- The value of a numeric literal. Separators are ignored, and digits after a leading zero are
octal if they can be. -/
def literalValue? (raw : String) : Option Float :=
  match (Text.lower raw).toList.filter (· ≠ '_') with
  | '0' :: 'x' :: digits => radixValue? 16 digits
  | '0' :: 'b' :: digits => radixValue? 2 digits
  | '0' :: 'o' :: digits => radixValue? 8 digits
  | '0' :: d :: ds =>
      if (d :: ds).all Text.isOctalDigit then radixValue? 8 (d :: ds) else decimal? ('0' :: d :: ds)
  | text => decimal? text

/-- Digits of a decimal and the place of its point, counted from their start. -/
def Scaled.point (d : Scaled) : List Char × Int :=
  let digits := Nat.toDigits 10 d.digits
  (digits, digits.length + d.exponent)

/-- Digits with a point and without an exponent. -/
def positional (digits : List Char) (point : Int) : List Char :=
  if point ≤ 0 then '0' :: '.' :: List.replicate (-point).toNat '0' ++ digits
  else
    let whole := digits.take point.toNat
    let fraction := digits.drop point.toNat
    let padding := List.replicate (point.toNat - digits.length) '0'
    whole ++ padding ++ (if fraction.isEmpty then [] else '.' :: fraction)

/-- Digits with a point after the first one and an exponent with its sign. -/
def scientific (digits : List Char) (point : Int) : List Char :=
  let exponent := point - 1
  let fraction := digits.drop 1
  digits.take 1 ++ (if fraction.isEmpty then [] else '.' :: fraction) ++
    (if exponent < 0 then ['e', '-'] else ['e', '+']) ++ Nat.toDigits 10 exponent.natAbs

/-- The text of a positive number. Integers below `10 ^ 21` are written in full, other numbers with
the fewest digits; numbers below `10 ^ -6` and from `10 ^ 21` on have an exponent. -/
def magnitudeText (b : Binary) : List Char :=
  if b.isInteger && b.floor < pow10 21 then Nat.toDigits 10 b.floor
  else
    let (digits, point) := (shortest b).point
    if -6 < point && point ≤ 21 then positional digits point else scientific digits point

/-- The text of a number. Zero has no sign. -/
def numberText (x : Float) : String :=
  if x.isNaN then "NaN"
  else if x.isInf then if isNegative x then "-Infinity" else "Infinity"
  else if x == 0 then "0"
  else
    let magnitude := magnitudeText (Binary.ofFloat x)
    String.ofList (if isNegative x then '-' :: magnitude else magnitude)

/-- The text of a number as an expression, which keeps the sign of zero. -/
def expressionText (x : Float) : String :=
  if x < 0 || (x == 0 && isNegative x) then "-" ++ numberText (-x) else numberText x

/-- The text of a numeric literal as a property key. -/
def normalizeLiteral (raw : String) : String :=
  match literalValue? raw with
  | some x => numberText x
  | none => String.ofList (raw.toList.filter (· ≠ '_'))

end Erasure.Decimal
