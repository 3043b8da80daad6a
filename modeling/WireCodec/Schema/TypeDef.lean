import WireCodec.Schema.Distinct
import WireCodec.Schema.Error

/-!
# Type definitions

A definition names a type and says how its values are put together.  Definitions refer to other
types by name.  What can be checked on one definition alone is part of its type: labels, fields
and variants are distinct, enumerations and groups have at least one entry and no more than a tag
tells apart, array sizes are positive and fit their length prefix.  `Enumeration.make?` and its
companions check it.
-/

namespace WireCodec

/-- The kinds of type definition. -/
inductive TypeKind
  | builtin
  | scalar
  | enumeration
  | composite
  | fixedArray
  | variableArray
  | group
  deriving DecidableEq, Repr

namespace TypeKind

def all : List TypeKind :=
  [builtin, scalar, enumeration, composite, fixedArray, variableArray, group]

def name : TypeKind → String
  | builtin => "builtin"
  | scalar => "scalar"
  | enumeration => "enumeration"
  | composite => "composite"
  | fixedArray => "fixed_array"
  | variableArray => "variable_array"
  | group => "group"

end TypeKind

/-- A named alias of a builtin. -/
structure Scalar where
  name : String
  builtin : Builtin
  deriving DecidableEq, Repr

/-- The number of entries that the widest tag tells apart.  No list in memory is longer. -/
def maxEntries : Nat :=
  twoPow 64

/-- A choice of one of several labels. -/
structure Enumeration where
  name : String
  labels : List String
  nonempty : labels ≠ []
  distinct : labels.Nodup
  countable : labels.length ≤ maxEntries
  deriving DecidableEq, Repr

/-- A named reference to a type: a field of a composite or a variant of a group. -/
structure Field where
  name : String
  typeName : String
  deriving DecidableEq, Repr

/-- The names of a list of fields. -/
def fieldNames (fields : List Field) : List String :=
  fields.map Field.name

/-- A record; the order of its fields is their order on the wire. -/
structure Composite where
  name : String
  fields : List Field
  distinct : (fieldNames fields).Nodup
  deriving DecidableEq, Repr

/-- Exactly `count` elements. -/
structure FixedArray where
  name : String
  element : String
  count : Nat
  positive : 0 < count
  deriving DecidableEq, Repr

/-- At most `max` elements behind their number, written as a `sizeType`. -/
structure VariableArray where
  name : String
  element : String
  max : Nat
  sizeType : Builtin
  positive : 0 < max
  unsigned : sizeType.isUnsigned = true
  fits : max < twoPow (8 * sizeType.byteLength)
  deriving DecidableEq, Repr

/-- One of several variants, each with a payload. -/
structure Group where
  name : String
  variants : List Field
  nonempty : variants ≠ []
  distinct : (fieldNames variants).Nodup
  countable : variants.length ≤ maxEntries
  deriving DecidableEq, Repr

/-- The fault of an enumeration or group whose entries outnumber the widest tag. -/
def tooManyEntries (name : String) (count : Nat) : SchemaError :=
  .sizeTypeOverflow name (count - 1) .uint64

namespace Enumeration

def make? (name : String) (labels : List String) : Except SchemaError Enumeration :=
  if hne : labels = [] then .error (.empty name)
  else
    match h : firstRepeated labels with
    | some label => .error (.duplicateName name label)
    | none =>
      if hcount : labels.length ≤ maxEntries then
        .ok ⟨name, labels, hne, nodup_of_firstRepeated_eq_none h, hcount⟩
      else .error (tooManyEntries name labels.length)

/-- The position of a label, which is its code on the wire. -/
def ordinal? (e : Enumeration) (label : String) : Option Nat :=
  e.labels.findIdx? (· = label)

/-- The unsigned builtin that holds the ordinals. -/
def tagType (e : Enumeration) : Builtin :=
  .smallestUnsigned (e.labels.length - 1)

end Enumeration

namespace Composite

def make? (name : String) (fields : List Field) : Except SchemaError Composite :=
  match h : firstRepeated (fieldNames fields) with
  | some field => .error (.duplicateName name field)
  | none => .ok ⟨name, fields, nodup_of_firstRepeated_eq_none h⟩

def field? (c : Composite) (name : String) : Option Field :=
  c.fields.find? fun f => f.name = name

end Composite

def FixedArray.make? (name element : String) (count : Nat) : Except SchemaError FixedArray :=
  if h : 0 < count then .ok ⟨name, element, count, h⟩ else .error (.nonPositiveSize name)

def VariableArray.make? (name element : String) (max : Nat) (sizeType : Builtin) :
    Except SchemaError VariableArray :=
  if hpos : 0 < max then
    if hunsigned : sizeType.isUnsigned = true then
      if hfits : max < twoPow (8 * sizeType.byteLength) then
        .ok ⟨name, element, max, sizeType, hpos, hunsigned, hfits⟩
      else .error (.sizeTypeOverflow name max sizeType)
    else .error (.invalidSizeType name sizeType)
  else .error (.nonPositiveSize name)

namespace Group

def make? (name : String) (variants : List Field) : Except SchemaError Group :=
  if hne : variants = [] then .error (.empty name)
  else
    match h : firstRepeated (fieldNames variants) with
    | some variant => .error (.duplicateName name variant)
    | none =>
      if hcount : variants.length ≤ maxEntries then
        .ok ⟨name, variants, hne, nodup_of_firstRepeated_eq_none h, hcount⟩
      else .error (tooManyEntries name variants.length)

/-- The position of a variant, which is its tag on the wire. -/
def variantIndex? (g : Group) (name : String) : Option Nat :=
  g.variants.findIdx? fun v => v.name = name

/-- The unsigned builtin that holds the tags. -/
def tagType (g : Group) : Builtin :=
  .smallestUnsigned (g.variants.length - 1)

end Group

/-- A definition of a schema. -/
inductive TypeDef
  | builtin (b : Builtin)
  | scalar (t : Scalar)
  | enumeration (t : Enumeration)
  | composite (t : Composite)
  | fixedArray (t : FixedArray)
  | variableArray (t : VariableArray)
  | group (t : Group)
  deriving DecidableEq, Repr

namespace TypeDef

def name : TypeDef → String
  | builtin b => b.name
  | scalar t => t.name
  | enumeration t => t.name
  | composite t => t.name
  | fixedArray t => t.name
  | variableArray t => t.name
  | group t => t.name

def kind : TypeDef → TypeKind
  | builtin _ => .builtin
  | scalar _ => .scalar
  | enumeration _ => .enumeration
  | composite _ => .composite
  | fixedArray _ => .fixedArray
  | variableArray _ => .variableArray
  | group _ => .group

/-- The names of the types that the definition mentions, in the order of mention. -/
def references : TypeDef → List String
  | builtin _ => []
  | scalar t => [t.builtin.name]
  | enumeration _ => []
  | composite t => t.fields.map Field.typeName
  | fixedArray t => [t.element]
  | variableArray t => [t.sizeType.name, t.element]
  | group t => t.variants.map Field.typeName

/-- The builtin that a builtin or scalar is encoded as. -/
def asBuiltin? : TypeDef → Option Builtin
  | builtin b => some b
  | scalar t => some t.builtin
  | _ => none

/-- The builtin in which an enumeration writes its ordinals and a group its tags. -/
def tagType? : TypeDef → Option Builtin
  | enumeration t => some t.tagType
  | group t => some t.tagType
  | _ => none

end TypeDef
end WireCodec
