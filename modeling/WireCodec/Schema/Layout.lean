import WireCodec.Schema.Basic

/-!
# Layouts

A layout is a type with every reference replaced by the layout of the type referred to.  Since no
type of a schema contains itself, every type has one; it is found by going through the
definitions in dependency order.  Encoding, decoding and sizes are recursions on layouts.
-/

namespace WireCodec

inductive Layout
  | number (typeName : String) (builtin : Builtin)
  | enumeration (typeName : String) (labels : List String)
  | composite (typeName : String) (fields : List (String × Layout))
  | fixedArray (typeName : String) (count : Nat) (element : Layout)
  | variableArray (typeName : String) (max : Nat) (sizeType : Builtin) (element : Layout)
  | group (typeName : String) (variants : List (String × Layout))

namespace Layout

/-- The name of the type that the layout belongs to. -/
def typeName : Layout → String
  | number name _ => name
  | enumeration name _ => name
  | composite name _ => name
  | fixedArray name _ _ => name
  | variableArray name _ _ _ => name
  | group name _ => name

/-- The fields with their layouts, if all of them are known. -/
def ofFields? (known : String → Option Layout) (fields : List Field) :
    Option (List (String × Layout)) :=
  fields.mapM fun f => (known f.typeName).map fun layout => (f.name, layout)

/-- The layout of a definition, given those of the types it refers to. -/
def ofTypeDef? (known : String → Option Layout) : TypeDef → Option Layout
  | .builtin b => some (number b.name b)
  | .scalar t => some (number t.name t.builtin)
  | .enumeration t => some (enumeration t.name t.labels)
  | .composite t => (ofFields? known t.fields).map (composite t.name)
  | .fixedArray t => (known t.element).map (fixedArray t.name t.count)
  | .variableArray t => (known t.element).map (variableArray t.name t.max t.sizeType)
  | .group t => (ofFields? known t.variants).map (group t.name)

/-- Adds the layout of a definition to those known, the latest first. -/
def learn (known : List (String × Layout)) (d : TypeDef) : List (String × Layout) :=
  match ofTypeDef? (fun name => known.lookup name) d with
  | some layout => (d.name, layout) :: known
  | none => known

/-- The unsigned builtin that tells `count` entries apart. -/
def tagType (count : Nat) : Builtin :=
  .smallestUnsigned (count - 1)

end Layout

/-- The layouts of all types of a schema. -/
def Schema.layouts (s : Schema) : List (String × Layout) :=
  s.ordered.foldl Layout.learn []

/-- The layout of the type of that name. -/
def Schema.layout? (s : Schema) (typeName : String) : Option Layout :=
  s.layouts.lookup typeName

end WireCodec
