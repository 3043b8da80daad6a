import WireCodec.Schema.Layout

/-!
# Sizes of encodings

Lengths are counted in 64 bits; sums and products that exceed them stay at the greatest count.
-/

namespace WireCodec

/-- The length of the encodings of a type. -/
inductive EncodedSize
  | fixed (bytes : Nat)
  | varying
  deriving DecidableEq, Repr

namespace EncodedSize

def isFixed : EncodedSize → Bool
  | fixed _ => true
  | varying => false

/-- The greatest length that is counted. -/
def limit : Nat := 18446744073709551615

/-- Sum up to the greatest length. -/
def add (a b : Nat) : Nat := min (a + b) limit

/-- Product up to the greatest length. -/
def mul (a b : Nat) : Nat := min (a * b) limit

end EncodedSize

namespace Layout

mutual

/-- The common length of all encodings, if the layout has no variable part. -/
def encodedSize : Layout → EncodedSize
  | number _ builtin => .fixed builtin.byteLength
  | enumeration _ labels => .fixed (tagType labels.length).byteLength
  | composite _ fields => encodedSizeFields 0 fields
  | fixedArray _ count element =>
    match element.encodedSize with
    | .fixed n => .fixed (EncodedSize.mul n count)
    | .varying => .varying
  | variableArray _ _ _ _ => .varying
  | group _ _ => .varying

/-- The common length of the encodings of fields behind `total` bytes. -/
def encodedSizeFields (total : Nat) : List (String × Layout) → EncodedSize
  | [] => .fixed total
  | (_, layout) :: fields =>
    match layout.encodedSize with
    | .fixed n => encodedSizeFields (EncodedSize.add total n) fields
    | .varying => .varying

end

mutual

/-- A bound on the length of every encoding. -/
def maxEncodedLength : Layout → Nat
  | number _ builtin => builtin.byteLength
  | enumeration _ labels => (tagType labels.length).byteLength
  | composite _ fields => sumMaxLengths 0 fields
  | fixedArray _ count element => EncodedSize.mul element.maxEncodedLength count
  | variableArray _ max sizeType element =>
    EncodedSize.add sizeType.byteLength (EncodedSize.mul element.maxEncodedLength max)
  | group _ variants =>
    EncodedSize.add (tagType variants.length).byteLength (greatestMaxLength 0 variants)

/-- The bounds of all fields on top of `total`. -/
def sumMaxLengths (total : Nat) : List (String × Layout) → Nat
  | [] => total
  | (_, layout) :: fields => sumMaxLengths (EncodedSize.add total layout.maxEncodedLength) fields

/-- The greatest of `best` and the bounds of the variants. -/
def greatestMaxLength (best : Nat) : List (String × Layout) → Nat
  | [] => best
  | (_, layout) :: variants => greatestMaxLength (max best layout.maxEncodedLength) variants

end

end Layout

/-- The length of the encodings of a definition of the schema. -/
def Schema.encodedSize (s : Schema) (d : TypeDef) : EncodedSize :=
  match s.layout? d.name with
  | some layout => layout.encodedSize
  | none => .varying

/-- A bound on the length of the encodings of a definition of the schema. -/
def Schema.maxEncodedLength (s : Schema) (d : TypeDef) : Nat :=
  match s.layout? d.name with
  | some layout => layout.maxEncodedLength
  | none => 0

end WireCodec
