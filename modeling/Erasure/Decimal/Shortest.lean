import Erasure.Decimal.Double

/-!
The shortest decimal that denotes a double: the fewest digits that read back, and of those the
nearest to the double.
-/

namespace Erasure.Decimal

/-- The number `digits * 10 ^ exponent`. -/
structure Scaled where
  digits : Nat
  exponent : Int
  deriving DecidableEq

/-- A double between the midpoints to its neighbours, in quarters of its last binary place. -/
structure Rounding where
  value : Nat
  low : Nat
  high : Nat
  /-- The midpoints round to the double too. -/
  closed : Bool
  /-- Exponent of the unit. -/
  exponent : Int

/-- The gap below a power of two is half as wide. -/
def Rounding.ofBinary (b : Binary) : Rounding :=
  let narrow := b.mantissa = pow2 52 && b.exponent > -1074
  { value := 4 * b.mantissa
    low := 4 * b.mantissa - (if narrow then 1 else 2)
    high := 4 * b.mantissa + 2
    closed := b.mantissa % 2 = 0
    exponent := b.exponent - 2 }

/-- Factors that compare multiples of the binary unit with multiples of `10 ^ exponent`. -/
def gridFactors (r : Rounding) (exponent : Int) : Nat × Nat :=
  (pow2 r.exponent.toNat * pow10 (-exponent).toNat, pow2 (-r.exponent).toNat * pow10 exponent.toNat)

/-- The decimal with the given exponent that reads back as the double, the nearest if there are
two. -/
def onGrid? (r : Rounding) (exponent : Int) : Option Nat :=
  let (unit, step) := gridFactors r exponent
  let fits (n : Nat) : Bool :=
    let x := n * step
    if r.closed then r.low * unit ≤ x && x ≤ r.high * unit
    else r.low * unit < x && x < r.high * unit
  let below := r.value * unit / step
  let rest := r.value * unit % step
  match fits below, fits (below + 1) with
  | true, true => some (if 2 * rest ≥ step then below + 1 else below)
  | true, false => some below
  | false, true => some (below + 1)
  | false, false => none

/-- The least power of ten that is greater than the double. -/
def decimalSize (b : Binary) (r : Rounding) : Int :=
  let guess : Int := ((b.mantissa.log2 : Int) + b.exponent) * 30103 / 100000
  let exceeds (exponent : Int) : Bool :=
    let (unit, step) := gridFactors r exponent
    r.value * unit < step
  if exceeds guess then guess else if exceeds (guess + 1) then guess + 1 else guess + 2

/-- Move the zeros at the end of the digits into the exponent. -/
def Scaled.normalize (d : Scaled) : Nat → Scaled
  | 0 => d
  | fuel + 1 =>
      if d.digits ≠ 0 && d.digits % 10 = 0 then
        Scaled.normalize ⟨d.digits / 10, d.exponent + 1⟩ fuel
      else d

/-- The shortest decimal of a positive double. -/
def shortest (b : Binary) : Scaled :=
  let r := Rounding.ofBinary b
  let size := decimalSize b r
  let attempt (count : Nat) : Option Scaled :=
    (onGrid? r (size - count)).map fun n => ⟨n, size - count⟩
  let found := (List.range' 1 17).findSome? attempt
  (found.getD ⟨r.value, r.exponent⟩).normalize 20

end Erasure.Decimal
