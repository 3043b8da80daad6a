import WireCodec.Typed.Codec
import WireCodec.Wire.Float

/-!
# Codecs of numbers

The ten builtins as types: integers of fixed width and floats given by their bits.
-/

namespace WireCodec

instance : Codec UInt8 where
  typeName := "u8"
  encode n := Encoder.writeUInt 1 n.toNat
  decode := do return UInt8.ofNat (← Decoder.readUInt 1)

instance : Codec UInt16 where
  typeName := "u16"
  encode n := Encoder.writeUInt 2 n.toNat
  decode := do return UInt16.ofNat (← Decoder.readUInt 2)

instance : Codec UInt32 where
  typeName := "u32"
  encode n := Encoder.writeUInt 4 n.toNat
  decode := do return UInt32.ofNat (← Decoder.readUInt 4)

instance : Codec UInt64 where
  typeName := "u64"
  encode n := Encoder.writeUInt 8 n.toNat
  decode := do return UInt64.ofNat (← Decoder.readUInt 8)

instance : Codec Int8 where
  typeName := "i8"
  encode n := Encoder.writeInt 1 n.toInt
  decode := do return Int8.ofInt (← Decoder.readInt 1)

instance : Codec Int16 where
  typeName := "i16"
  encode n := Encoder.writeInt 2 n.toInt
  decode := do return Int16.ofInt (← Decoder.readInt 2)

instance : Codec Int32 where
  typeName := "i32"
  encode n := Encoder.writeInt 4 n.toInt
  decode := do return Int32.ofInt (← Decoder.readInt 4)

instance : Codec Int64 where
  typeName := "i64"
  encode n := Encoder.writeInt 8 n.toInt
  decode := do return Int64.ofInt (← Decoder.readInt 8)

/-- No number, or one that the bound of single precision or its negative leaves out. -/
def Double.beyondSingle (x : Double) : Bool :=
  x.isNaN || x.atMost singleLimit.negated || singleLimit.atMost x

/-- A float of single precision that has an encoding. -/
def Single.check (x : Single) : Except WireError Unit :=
  if x.toDouble.beyondSingle then .error (.range "float32" x.plain) else .ok ()

/-- A float of double precision that has an encoding. -/
def Double.check (x : Double) : Except WireError Unit :=
  checkDouble "float64" x

instance : Codec Single where
  typeName := "f32"
  encode x := do
    Encoder.require x.check
    Encoder.writeSingle x
  decode := do
    let x ← Decoder.readSingle
    Decoder.require x.check
    return x

instance : Codec Double where
  typeName := "f64"
  encode x := do
    Encoder.require x.check
    Encoder.writeDouble x
  decode := do
    let x ← Decoder.readDouble
    Decoder.require x.check
    return x

end WireCodec
