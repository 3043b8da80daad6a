import WireCodec.Wire.Reader
import WireCodec.Wire.Writer

/-!
# Types with an encoding

`Codec α` encodes values of the type `α` itself, where `Value` encodes values of any type of a
schema.
-/

namespace WireCodec

class Codec (α : Type) where
  /-- What the type is called in faults. -/
  typeName : String
  /-- Appends an encoding. -/
  encode : α → Encoder Unit
  /-- Reads a value from where the reader stands. -/
  decode : Decoder α

namespace Codec

section
variable {α : Type} [Codec α]

/-- The encoding of a value. -/
def pack (a : α) : Except WireError (List UInt8) :=
  Encoder.bytesOf (encode a)

/-- The value has an encoding. -/
def validate (a : α) : Except WireError Unit :=
  Encoder.check (encode a)

/-- The value that a whole byte string encodes. -/
def unpack (α : Type) [Codec α] (bytes : List UInt8) : Except WireError α :=
  Decoder.readAll (typeName α) decode bytes

end

end Codec
end WireCodec
