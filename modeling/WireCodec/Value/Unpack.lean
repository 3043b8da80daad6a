import WireCodec.Value.Pack
import WireCodec.Wire.Reader

/-!
# Decoding values

Decoding reads along the layout of a type.  It checks what encoding checks: floats within their
bounds, ordinals and tags below the number of entries, and lengths within their maximum.
-/

namespace WireCodec

/-- Reads a number as a builtin; `typeName` is the builtin or a scalar for it. -/
def unpackNumber (typeName : String) (builtin : Builtin) : Decoder Value :=
  match builtin.numeric with
  | .signed => do return .integer (← Decoder.readInt builtin.byteLength)
  | .unsigned => do return .integer (← Decoder.readUInt builtin.byteLength)
  | .float =>
    if builtin = .float32 then do
      let x := (← Decoder.readSingle).toDouble
      Decoder.require (checkSingle typeName x)
      return .float x
    else do
      let x ← Decoder.readDouble
      Decoder.require (checkDouble typeName x)
      return .float x

namespace Layout

mutual

def unpack : Layout → Decoder Value
  | number typeName builtin => unpackNumber typeName builtin
  | enumeration typeName labels => do
    let ordinal ← Decoder.readUInt (tagType labels.length).byteLength
    match labels[ordinal]? with
    | some name => return .label name
    | none => throw (.invalidEnumerationValue typeName ordinal)
  | composite _ fields => do
    return .composite (← unpackFields fields)
  | fixedArray _ count element => do
    return .fixedArray (← Decoder.repeated count (unpack element))
  | variableArray typeName max sizeType element => do
    let len ← Decoder.readUInt sizeType.byteLength
    if len ≤ max then
      return .variableArray (← Decoder.repeated len (unpack element))
    else throw (.length typeName len max)
  | group typeName variants => do
    let tag ← Decoder.readUInt (tagType variants.length).byteLength
    unpackVariant typeName tag tag variants

/-- Reads the fields in the order in which they are declared. -/
def unpackFields : List (String × Layout) → Decoder (List (String × Value))
  | [] => pure []
  | (name, layout) :: fields => do
    let v ← unpack layout
    return (name, v) :: (← unpackFields fields)

/-- Reads the payload of the variant at `index` of the list. -/
def unpackVariant (typeName : String) (tag : Nat) :
    (index : Nat) → List (String × Layout) → Decoder Value
  | _, [] => throw (.invalidVariant typeName tag)
  | 0, (name, layout) :: _ => do
    return .group name (← unpack layout)
  | index + 1, _ :: variants => unpackVariant typeName tag index variants

end

end Layout

namespace Schema

/-- Reads a value of a type from where the reader stands. -/
def unpackFrom (s : Schema) (typeName : String) : Decoder Value :=
  match s.requireLayout typeName with
  | .ok layout => layout.unpack
  | .error e => throw e

/-- The value that a whole byte string encodes as a type. -/
def unpack (s : Schema) (typeName : String) (bytes : List UInt8) : Except WireError Value :=
  Decoder.readAll typeName (s.unpackFrom typeName) bytes

end Schema
end WireCodec
