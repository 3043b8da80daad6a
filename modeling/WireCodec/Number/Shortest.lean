import WireCodec.Number.Binary

/-!
# Shortest decimal digits

The digits of a float are the fewest that read back as the same float.  A decimal reads back if
it lies between the midpoints to the two neighbouring floats, midpoints included where the
significand is even.  On the grid of decimals with `n` significant digits only the two neighbours
of the number have to be tried: if any grid point lies in that interval, one of these does.
-/

namespace WireCodec

/-- The number `0.d₁d₂…dₙ * 10 ^ pointAt`, without trailing zeros. -/
structure Decimal where
  digits : List Nat
  pointAt : Int
  deriving DecidableEq, Repr

namespace Decimal

/-- The decimal digits of a number, the first one first; none for zero. -/
def digitsOf (n : Nat) : List Nat :=
  if n = 0 then [] else (Nat.toDigits 10 n).map fun c => c.toNat - '0'.toNat

/-- The decimal `coefficient * 10 ^ exponent`. -/
def ofScaled (coefficient : Nat) (exponent : Int) : Decimal :=
  let digits := digitsOf coefficient
  { digits := (digits.reverse.dropWhile (· = 0)).reverse
    pointAt := digits.length + exponent }

end Decimal

/-- Positive fractions `low ≤ value ≤ high` over one denominator.  The ends belong to the
interval if `closed` is set. -/
structure ReadBack where
  low : Nat
  value : Nat
  high : Nat
  denominator : Nat
  closed : Bool

namespace ReadBack

/-- The reals that round to the finite number of a pattern without sign.  Below a power of two the
floats are twice as dense, so the lower midpoint is nearer there. -/
def ofMagnitude (f : BinaryFormat) (magnitude : Nat) : ReadBack :=
  let (significand, exponent) := f.finiteParts magnitude
  let fraction := magnitude % twoPow f.fractionBits
  let below := if fraction = 0 && twoPow f.fractionBits < magnitude then 1 else 2
  let scale := twoPow (exponent - 2).toNat
  { low := (4 * significand - below) * scale
    value := 4 * significand * scale
    high := (4 * significand + 2) * scale
    denominator := twoPow (2 - exponent).toNat
    closed := significand % 2 = 0 }

variable (r : ReadBack)

/-- Whether `coefficient * 10 ^ exponent` lies in the interval. -/
def holds (coefficient : Nat) (exponent : Int) : Bool :=
  let point := coefficient * tenPow exponent.toNat * r.denominator
  let unit := tenPow (-exponent).toNat
  if r.closed then r.low * unit ≤ point && point ≤ r.high * unit
  else r.low * unit < point && point < r.high * unit

/-- The integer `e` with `10 ^ (e - 1) ≤ value < 10 ^ e`, for numbers above `10 ^ (-400)`. -/
def decimalExponent : Int :=
  let whole := r.value / r.denominator
  if 0 < whole then (Decimal.digitsOf whole).length
  else
    let zeros := (List.range 400).find? fun t => r.denominator ≤ r.value * tenPow t
    1 - (zeros.getD 0 : Int)

/-- The nearest decimal of the grid with spacing `10 ^ exponent` that lies in the interval; of two
that are equally near, the greater. -/
def onGrid? (exponent : Int) : Option Nat :=
  let numerator := r.value * tenPow (-exponent).toNat
  let divisor := r.denominator * tenPow exponent.toNat
  let below := numerator / divisor
  let down := r.holds below exponent
  let up := r.holds (below + 1) exponent
  if up && (!down || divisor ≤ 2 * (numerator % divisor)) then some (below + 1)
  else if down then some below
  else none

/-- The decimal with the fewest digits in the interval, the nearest one of these. -/
def shortest : Decimal :=
  let e := r.decimalExponent
  let hit := (List.range 17).findSome? fun (n : Nat) =>
    let exponent := e - ((n : Int) + 1)
    (r.onGrid? exponent).map fun coefficient => Decimal.ofScaled coefficient exponent
  hit.getD ⟨[], 0⟩

end ReadBack

/-- The shortest decimal of a finite pattern without sign; zero has no digits. -/
def shortestDecimal (f : BinaryFormat) (magnitude : Nat) : Decimal :=
  if magnitude = 0 then ⟨[], 0⟩ else (ReadBack.ofMagnitude f magnitude).shortest

end WireCodec
