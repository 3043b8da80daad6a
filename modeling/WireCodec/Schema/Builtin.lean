import WireCodec.Number.Power

/-!
# Builtin types

The ten numbers that every schema knows: signed and unsigned integers of one, two, four and eight
bytes, and IEEE-754 floats of four and eight bytes.
-/

namespace WireCodec

inductive Builtin
  | int8
  | int16
  | int32
  | int64
  | uint8
  | uint16
  | uint32
  | uint64
  | float32
  | float64
  deriving DecidableEq, Repr

/-- How the bytes of a builtin are read. -/
inductive Numeric
  | signed
  | unsigned
  | float
  deriving DecidableEq, Repr

namespace Builtin

/-- Every builtin, in the order in which schemas list them. -/
def all : List Builtin :=
  [int8, int16, int32, int64, uint8, uint16, uint32, uint64, float32, float64]

def name : Builtin → String
  | int8 => "int8"
  | int16 => "int16"
  | int32 => "int32"
  | int64 => "int64"
  | uint8 => "uint8"
  | uint16 => "uint16"
  | uint32 => "uint32"
  | uint64 => "uint64"
  | float32 => "float32"
  | float64 => "float64"

/-- The builtin of that name, if there is one. -/
def ofName? (name : String) : Option Builtin :=
  all.find? fun b => b.name = name

/-- The number of bytes of an encoding. -/
def byteLength : Builtin → Nat
  | int8 | uint8 => 1
  | int16 | uint16 => 2
  | int32 | uint32 | float32 => 4
  | int64 | uint64 | float64 => 8

def numeric : Builtin → Numeric
  | int8 | int16 | int32 | int64 => .signed
  | uint8 | uint16 | uint32 | uint64 => .unsigned
  | float32 | float64 => .float

def isFloat (b : Builtin) : Bool :=
  b.numeric = .float

def isUnsigned (b : Builtin) : Bool :=
  b.numeric = .unsigned

theorem isUnsigned_uint8 : uint8.isUnsigned = true :=
  rfl

/-- The least and the greatest value of an integer builtin. -/
def intRange (b : Builtin) : Option (Int × Int) :=
  match b.numeric with
  | .signed =>
    let half : Int := twoPow (8 * b.byteLength - 1)
    some (-half, half - 1)
  | .unsigned => some (0, (twoPow (8 * b.byteLength) : Int) - 1)
  | .float => none

/-- The greatest value of an unsigned builtin. -/
def unsignedMax (b : Builtin) : Option Nat :=
  match b.numeric with
  | .unsigned => some (twoPow (8 * b.byteLength) - 1)
  | _ => none

/-- The narrowest unsigned builtin that holds `max`. -/
def smallestUnsigned (max : Nat) : Builtin :=
  if max < twoPow 8 then uint8
  else if max < twoPow 16 then uint16
  else if max < twoPow 32 then uint32
  else uint64

end Builtin
end WireCodec
