import WireCodec.Schema.Layout
import WireCodec.Value.Basic
import WireCodec.Wire.Float
import WireCodec.Wire.Writer

/-!
# Encoding values

A value is encoded along the layout of a type.  It is checked while it is written, so a value that
does not fit fails with what was written before the fault kept.

* numbers: little-endian, in the width of their builtin;
* enumerations: the ordinal of the label;
* composites: the fields in declaration order, whatever order the value holds them in;
* fixed arrays: the elements;
* variable arrays: the number of elements, then the elements;
* groups: the index of the variant, then the payload.
-/

namespace WireCodec

/-- Writes an integer that lies in `range`. -/
def packInteger (typeName : String) (width : Nat) (range : Int × Int) (v : Int) : Encoder Unit :=
  if range.1 ≤ v ∧ v ≤ range.2 then Encoder.writeInt width v
  else throw (.range typeName (toString v))

/-- Writes a number as a builtin; `typeName` is the builtin or a scalar for it. -/
def packNumber (typeName : String) (builtin : Builtin) (v : Value) : Encoder Unit :=
  match builtin.intRange, v with
  | some range, .integer n => packInteger typeName builtin.byteLength range n
  | none, .float x =>
    if builtin = .float32 then do
      Encoder.require (checkSingle typeName x)
      Encoder.writeSingle x.toSingle
    else do
      Encoder.require (checkDouble typeName x)
      Encoder.writeDouble x
  | _, _ => throw (.typeMismatch typeName v.kind)

/-- Every given field is declared, and none is given twice.  `seen` lists the ones in front. -/
def checkGiven (typeName : String) (declared seen : List String) :
    List (String × Value) → Except WireError Unit
  | [] => .ok ()
  | (name, _) :: given =>
    if name ∉ declared then .error (.unknownField typeName name)
    else if name ∈ seen then .error (.duplicateField typeName name)
    else checkGiven typeName declared (name :: seen) given

namespace Layout

mutual

def pack : Layout → Value → Encoder Unit
  | number typeName builtin, v => packNumber typeName builtin v
  | enumeration typeName labels, .label name =>
    match labels.findIdx? (· = name) with
    | some ordinal => Encoder.writeUInt (tagType labels.length).byteLength ordinal
    | none => throw (.unknownLabel typeName name)
  | composite typeName fields, .composite given => do
    Encoder.require (checkGiven typeName (fields.map Prod.fst) [] given)
    packFields typeName given fields
  | fixedArray typeName count element, .fixedArray vs =>
    if vs.length = count then vs.forM (pack element)
    else throw (.length typeName vs.length count)
  | variableArray typeName max sizeType element, .variableArray vs =>
    if vs.length ≤ max then do
      Encoder.writeUInt sizeType.byteLength vs.length
      vs.forM (pack element)
    else throw (.length typeName vs.length max)
  | group typeName variants, .group variant payload =>
    packVariant typeName (tagType variants.length).byteLength variant payload 0 variants
  | layout, v => throw (.typeMismatch layout.typeName v.kind)

/-- Writes the declared fields, each from the given value of its name. -/
def packFields (typeName : String) (given : List (String × Value)) :
    List (String × Layout) → Encoder Unit
  | [] => pure ()
  | (name, layout) :: fields =>
    match given.lookup name with
    | some v => do
      pack layout v
      packFields typeName given fields
    | none => throw (.missingField typeName name)

/-- Writes the tag of a variant in `width` bytes and its payload; the variants listed start at
`index`. -/
def packVariant (typeName : String) (width : Nat) (variant : String) (payload : Value)
    (index : Nat) : List (String × Layout) → Encoder Unit
  | [] => throw (.unknownLabel typeName variant)
  | (name, layout) :: variants =>
    if name = variant then do
      Encoder.writeUInt width index
      pack layout payload
    else packVariant typeName width variant payload (index + 1) variants

end

theorem pack_number (typeName : String) (builtin : Builtin) (v : Value) :
    pack (number typeName builtin) v = packNumber typeName builtin v := by
  rw [pack]

end Layout

namespace Schema

/-- The layout of a type that has to exist. -/
def requireLayout (s : Schema) (typeName : String) : Except WireError Layout :=
  match s.layout? typeName with
  | some layout => .ok layout
  | none => .error (.unknownType typeName)

/-- Appends the encoding of a value as a type. -/
def packInto (s : Schema) (typeName : String) (v : Value) : Encoder Unit :=
  match s.requireLayout typeName with
  | .ok layout => layout.pack v
  | .error e => throw e

/-- The encoding of a value as a type. -/
def pack (s : Schema) (typeName : String) (v : Value) : Except WireError (List UInt8) :=
  Encoder.bytesOf (s.packInto typeName v)

end Schema
end WireCodec
