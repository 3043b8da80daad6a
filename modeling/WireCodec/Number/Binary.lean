import WireCodec.Number.Power

/-!
# Binary floating point numbers

Floats are kept as their IEEE-754 bit patterns, so every pattern is a value of its own.  A finite
pattern stands for `significand * 2 ^ exponent`; conversion between the two widths rounds that
number to the nearest, a tie to the even one.
-/

namespace WireCodec

/-- The layout of a binary format: sign, then `exponentBits`, then `fractionBits`. -/
structure BinaryFormat where
  fractionBits : Nat
  exponentBits : Nat

/-- What a bit pattern stands for. -/
inductive FloatClass
  | nan
  | infinite (negative : Bool)
  | finite (negative : Bool) (significand : Nat) (exponent : Int)
  deriving DecidableEq, Repr

namespace BinaryFormat

def double : BinaryFormat := ⟨52, 11⟩

def single : BinaryFormat := ⟨23, 8⟩

variable (f : BinaryFormat)

/-- The bit of the sign, as a number. -/
def signBit : Nat := twoPow (f.fractionBits + f.exponentBits)

/-- The pattern of positive infinity. -/
def infinity : Nat := (twoPow f.exponentBits - 1) * twoPow f.fractionBits

/-- The exponent of the least positive number, which is `1 * 2 ^ leastExponent`. -/
def leastExponent : Int := 2 - twoPow (f.exponentBits - 1) - f.fractionBits

/-- The pattern without its sign. -/
def magnitude (bits : Nat) : Nat := bits % f.signBit

def isNegative (bits : Nat) : Bool := f.signBit ≤ bits

def isNaN (bits : Nat) : Bool := f.infinity < f.magnitude bits

/-- The place of a pattern among all others; zeros of both signs share one. -/
def rank (bits : Nat) : Int :=
  if f.isNegative bits then -(f.magnitude bits : Int) else f.magnitude bits

/-- The finite number of a pattern without sign. -/
def finiteParts (magnitude : Nat) : Nat × Int :=
  let fraction := magnitude % twoPow f.fractionBits
  match magnitude / twoPow f.fractionBits with
  | 0 => (fraction, f.leastExponent)
  | e + 1 => (twoPow f.fractionBits + fraction, f.leastExponent + e)

def classify (bits : Nat) : FloatClass :=
  let m := f.magnitude bits
  if f.infinity < m then .nan
  else if m = f.infinity then .infinite (f.isNegative bits)
  else
    let (significand, exponent) := f.finiteParts m
    .finite (f.isNegative bits) significand exponent

/-- `n / 2 ^ k` rounded to the nearest integer, a tie to the even one. -/
def shiftRightRounded (n k : Nat) : Nat :=
  let quotient := n / twoPow k
  let twice := 2 * (n % twoPow k)
  if twoPow k < twice || (twoPow k = twice && quotient % 2 = 1) then quotient + 1 else quotient

/-- The pattern without sign that is nearest to `significand * 2 ^ exponent`.  The significand is
brought to `fractionBits + 1` bits, or to fewer at the least exponent; where rounding carries into
the next binade the sum below carries into the exponent field. -/
def nearest (significand : Nat) (exponent : Int) : Nat :=
  if significand = 0 then 0
  else
    let surplus := (Nat.log2 significand : Int) - f.fractionBits
    let target := max (exponent + surplus) f.leastExponent
    let rounded :=
      if target ≤ exponent then significand * twoPow (exponent - target).toNat
      else shiftRightRounded significand (target - exponent).toNat
    min ((target - f.leastExponent).toNat * twoPow f.fractionBits + rounded) f.infinity

/-- Adds the sign to a pattern. -/
def withSign (negative : Bool) (magnitude : Nat) : Nat :=
  if negative then f.signBit + magnitude else magnitude

/-- The pattern in format `g` nearest to the number of a pattern in format `f`.  What is no number
keeps the leading bits of its fraction and becomes quiet. -/
def convert (g : BinaryFormat) (bits : Nat) : Nat :=
  match f.classify bits with
  | .infinite negative => g.withSign negative g.infinity
  | .finite negative significand exponent =>
    g.withSign negative (g.nearest significand exponent)
  | .nan =>
    let fraction := f.magnitude bits % twoPow f.fractionBits
    let kept := fraction * twoPow g.fractionBits / twoPow f.fractionBits
    let quiet := twoPow (g.fractionBits - 1)
    g.withSign (f.isNegative bits) (g.infinity + (if kept < quiet then kept + quiet else kept))

end BinaryFormat

/-- A binary64 number. -/
structure Double where
  bits : UInt64
  deriving DecidableEq, Repr

/-- A binary32 number. -/
structure Single where
  bits : UInt32
  deriving DecidableEq, Repr

namespace Double

def isNaN (x : Double) : Bool :=
  BinaryFormat.double.isNaN x.bits.toNat

/-- The nearest single precision number. -/
def toSingle (x : Double) : Single :=
  ⟨UInt32.ofNat (BinaryFormat.double.convert .single x.bits.toNat)⟩

/-- The numbers are equal: zeros of both signs are, and what is no number equals nothing. -/
def sameNumber (x y : Double) : Bool :=
  !x.isNaN && !y.isNaN && (x.bits = y.bits ||
    (BinaryFormat.double.magnitude x.bits.toNat = 0 &&
      BinaryFormat.double.magnitude y.bits.toNat = 0))

/-- The number is at most the other one; what is no number compares with nothing. -/
def atMost (x y : Double) : Bool :=
  !x.isNaN && !y.isNaN &&
    BinaryFormat.double.rank x.bits.toNat ≤ BinaryFormat.double.rank y.bits.toNat

/-- The number of the other sign. -/
def negated (x : Double) : Double := ⟨x.bits ^^^ 0x8000000000000000⟩

/-- The bound 3.402823466e38 of single precision, as the nearest double. -/
def singleLimit : Double := ⟨0x47EFFFFFDFF07036⟩

/-- A number strictly between the bound of single precision and its negative. -/
def withinSingle (x : Double) : Bool :=
  BinaryFormat.double.magnitude x.bits.toNat < singleLimit.bits.toNat

end Double

namespace Single

/-- The same number in double precision. -/
def toDouble (x : Single) : Double :=
  ⟨UInt64.ofNat (BinaryFormat.single.convert .double x.bits.toNat)⟩

end Single
end WireCodec
