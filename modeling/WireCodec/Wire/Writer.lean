import WireCodec.Number.Binary
import WireCodec.Number.LittleEndian
import WireCodec.Wire.Error

/-!
# Writing bytes

A writer appends to a byte string.  What was written before a failure stays written.
-/

namespace WireCodec

/-- The bytes written so far. -/
structure Writer where
  bytes : Array UInt8
  deriving DecidableEq, Repr

/-- A computation that appends bytes. -/
abbrev Encoder := EStateM WireError Writer

/-- A writer that has written nothing. -/
def Writer.empty : Writer := ⟨#[]⟩

namespace Encoder

/-- Writes nothing and fails as the check does. -/
def require (check : Except WireError Unit) : Encoder Unit :=
  match check with
  | .ok _ => pure ()
  | .error e => throw e

def writeBytes (bytes : List UInt8) : Encoder Unit :=
  modify fun w => ⟨w.bytes ++ bytes⟩

def writeByte (b : UInt8) : Encoder Unit :=
  writeBytes [b]

/-- The low `width` bytes of an unsigned integer. -/
def writeUInt (width n : Nat) : Encoder Unit :=
  writeBytes (LittleEndian.toBytes width n)

/-- The low `width` bytes of an integer in two's complement. -/
def writeInt (width : Nat) (v : Int) : Encoder Unit :=
  writeUInt width (LittleEndian.ofInt width v)

def writeSingle (x : Single) : Encoder Unit :=
  writeUInt 4 x.bits.toNat

def writeDouble (x : Double) : Encoder Unit :=
  writeUInt 8 x.bits.toNat

/-- The bytes that an encoder writes on its own. -/
def bytesOf (encode : Encoder Unit) : Except WireError (List UInt8) :=
  match encode Writer.empty with
  | .ok _ w => .ok w.bytes.toList
  | .error e _ => .error e

/-- An encoder runs through; its bytes are dropped. -/
def check (encode : Encoder Unit) : Except WireError Unit :=
  match encode Writer.empty with
  | .ok _ _ => .ok ()
  | .error e _ => .error e

end Encoder
end WireCodec
