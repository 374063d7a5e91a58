/-!
Doubles as exact numbers: the magnitude of a finite double, and the double nearest to a quotient.
-/

namespace Erasure.Decimal

/-- The number `2 ^ n`. -/
def pow2 (n : Nat) : Nat := Nat.pow 2 n

/-- The number `10 ^ n`. -/
def pow10 (n : Nat) : Nat := Nat.pow 10 n

/-- The number `mantissa * 2 ^ exponent`. -/
structure Binary where
  mantissa : Nat
  exponent : Int
  deriving DecidableEq

namespace Binary

/-- The magnitude of the finite double with the given bits. -/
def ofBits (bits : Nat) : Binary :=
  let fraction : Nat := bits % pow2 52
  let biased : Nat := bits / pow2 52 % pow2 11
  if biased = 0 then ⟨fraction, -1074⟩ else ⟨fraction + pow2 52, (biased : Int) - 1075⟩

def ofFloat (x : Float) : Binary := ofBits x.toBits.toNat

/-- The largest integer that is not greater. -/
def floor (b : Binary) : Nat :=
  if b.exponent ≥ 0 then b.mantissa * pow2 b.exponent.toNat
  else b.mantissa / pow2 (-b.exponent).toNat

def isInteger (b : Binary) : Bool :=
  b.exponent ≥ 0 || b.mantissa % pow2 (-b.exponent).toNat = 0

end Binary

/-- Bits of infinity. -/
def infinityBits : Nat := 2047 * pow2 52

/-- A quotient divided by a power of two, as a numerator and a denominator. -/
def scaleQuotient (num den : Nat) (exponent : Int) : Nat × Nat :=
  if exponent ≥ 0 then (num, den * pow2 exponent.toNat) else (num * pow2 (-exponent).toNat, den)

/-- The integer nearest to a quotient; of two the even one. -/
def roundQuotient (num den : Nat) : Nat :=
  let quotient := num / den
  let twice := 2 * (num % den)
  if twice > den || (twice = den && quotient % 2 = 1) then quotient + 1 else quotient

/-- The exponent for which the mantissa of a quotient has 53 bits, or the least exponent. -/
def quotientExponent (num den : Nat) : Int :=
  let first := max ((num.log2 : Int) - den.log2 - 53) (-1074)
  let (n, d) := scaleQuotient num den first
  if n / d ≥ pow2 53 then first + 1 else first

/-- Bits of the double nearest to a quotient; of two the one with an even mantissa. -/
def bitsOfQuotient (num den : Nat) : Nat :=
  if num = 0 then 0
  else
    let exponent := quotientExponent num den
    let (n, d) := scaleQuotient num den exponent
    min ((exponent + 1074).toNat * pow2 52 + roundQuotient n d) infinityBits

def floatOfBits (bits : Nat) : Float := Float.ofBits (UInt64.ofNat bits)

/-- The double nearest to `mantissa * 10 ^ exponent`. -/
def floatOfDecimal (mantissa : Nat) (exponent : Int) : Float :=
  let size := exponent + (Nat.toDigits 10 mantissa).length
  if mantissa = 0 || size < -400 then 0
  else if size > 400 then floatOfBits infinityBits
  else if exponent ≥ 0 then floatOfBits (bitsOfQuotient (mantissa * pow10 exponent.toNat) 1)
  else floatOfBits (bitsOfQuotient mantissa (pow10 (-exponent).toNat))

def isNegative (x : Float) : Bool := x.toBits.toNat ≥ pow2 63

def withSign (negative : Bool) (x : Float) : Float := if negative then -x else x

/-- The remainder of a division that rounds towards zero, which takes the sign of the dividend. -/
def remainder (x y : Float) : Float :=
  if x.isNaN || y.isNaN || x.isInf || y == 0 then 0.0 / 0.0
  else if y.isInf || x == 0 then x
  else
    let a := Binary.ofFloat x
    let b := Binary.ofFloat y
    let exponent := min a.exponent b.exponent
    let rest := a.mantissa * pow2 (a.exponent - exponent).toNat %
      (b.mantissa * pow2 (b.exponent - exponent).toNat)
    let (n, d) := scaleQuotient rest 1 (-exponent)
    withSign (isNegative x) (floatOfBits (bitsOfQuotient n d))

/-- The integer part of a double modulo `2 ^ 32`, zero for infinities and NaN. -/
def toWord32 (x : Float) : BitVec 32 :=
  if x.isNaN || x.isInf then 0
  else
    let n := BitVec.ofNat 32 (Binary.ofFloat x).floor
    if isNegative x then -n else n

end Erasure.Decimal
