import WireCodec.Number.Shortest

/-!
# Floats as text

A float is written with its shortest digits in one of three styles: `plain`, never with an
exponent; `scientific`, always with one; and `general`, which marks every number as a float
(`1.0`) and turns to an exponent outside of `10 ^ (-4)` up to `10 ^ 16`.
-/

namespace WireCodec

namespace Decimal

/-- A string of digits. -/
def digitText (digits : List Nat) : String :=
  String.ofList (digits.map Nat.digitChar)

def zeros (n : Nat) : String :=
  String.ofList (List.replicate n '0')

/-- Positional notation; the fraction is left out if there is none. -/
def plain (d : Decimal) : String :=
  if d.digits = [] then "0"
  else if d.pointAt ≤ 0 then "0." ++ zeros (-d.pointAt).toNat ++ digitText d.digits
  else
    let whole := d.pointAt.toNat
    if d.digits.length ≤ whole then digitText d.digits ++ zeros (whole - d.digits.length)
    else digitText (d.digits.take whole) ++ "." ++ digitText (d.digits.drop whole)

/-- One digit in front of the point, and the exponent. -/
def scientific (d : Decimal) : String :=
  match d.digits with
  | [] => "0e0"
  | first :: rest =>
    let fraction := if rest = [] then "" else "." ++ digitText rest
    digitText [first] ++ fraction ++ "e" ++ toString (d.pointAt - 1)

/-- Positional with at least one decimal, or scientific if the number is very large or small. -/
def general (d : Decimal) : String :=
  if d.digits = [] then "0.0"
  else if -3 ≤ d.pointAt ∧ d.pointAt ≤ 16 then
    if d.digits.length ≤ d.pointAt then d.plain ++ ".0" else d.plain
  else d.scientific

end Decimal

/-- The text of a pattern, given the style of the digits.  What is no number has no sign. -/
def BinaryFormat.text (f : BinaryFormat) (style : Decimal → String) (bits : Nat) : String :=
  let m := f.magnitude bits
  if f.infinity < m then "NaN"
  else
    let sign := if f.isNegative bits then "-" else ""
    sign ++ (if m = f.infinity then "inf" else style (shortestDecimal f m))

def Double.plain (x : Double) : String :=
  BinaryFormat.double.text Decimal.plain x.bits.toNat

def Double.general (x : Double) : String :=
  BinaryFormat.double.text Decimal.general x.bits.toNat

def Double.scientific (x : Double) : String :=
  BinaryFormat.double.text Decimal.scientific x.bits.toNat

def Single.plain (x : Single) : String :=
  BinaryFormat.single.text Decimal.plain x.bits.toNat

end WireCodec
