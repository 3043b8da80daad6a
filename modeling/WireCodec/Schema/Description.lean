import WireCodec.Schema.Basic
import WireCodec.Text.Json

/-!
# Schemas as JSON

The description of a schema holds its name, its version and its declared types in declaration
order.
-/

namespace WireCodec

/-- The name of a builtin in descriptions. -/
def Builtin.describedName : Builtin → String
  | uint8 => "u_int8"
  | uint16 => "u_int16"
  | uint32 => "u_int32"
  | uint64 => "u_int64"
  | b => b.name

/-- Fields and variants in descriptions. -/
def describeFields (fields : List Field) : Json :=
  .list (fields.map fun f => .object [("name", .text f.name), ("type_name", .text f.typeName)])

namespace TypeDef

/-- What a description says of a definition besides its kind. -/
def describedMembers : TypeDef → List (String × Json)
  | builtin b => [("builtin", .text b.describedName)]
  | scalar t => [("name", .text t.name), ("builtin", .text t.builtin.describedName)]
  | enumeration t => [("name", .text t.name), ("labels", .list (t.labels.map .text))]
  | composite t => [("name", .text t.name), ("fields", describeFields t.fields)]
  | fixedArray t =>
    [("name", .text t.name), ("element", .text t.element), ("count", .number t.count)]
  | variableArray t =>
    [("name", .text t.name), ("element", .text t.element), ("max", .number t.max),
      ("size_type", .text t.sizeType.describedName)]
  | group t => [("name", .text t.name), ("variants", describeFields t.variants)]

def describe (d : TypeDef) : Json :=
  .object (("kind", .text d.kind.name) :: d.describedMembers)

end TypeDef

namespace Schema

def describe (s : Schema) : Json :=
  .object [("name", .text s.name), ("version", .text s.version.text),
    ("types", .list (s.declared.map TypeDef.describe))]

/-- The description as a pretty-printed document. -/
def descriptionText (s : Schema) : String :=
  s.describe.pretty

end Schema
end WireCodec
