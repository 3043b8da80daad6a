import WireCodec.Typed.Number

/-!
# The types of the shapes schema

A schema of coloured points and the paths they form, with a type for each of its definitions.  A
path of more than sixteen points does not exist, so that every shape has an encoding.
-/

namespace WireCodec.Sample.Shapes

def schemaName : String := "shapes"

def schemaVersion : String := "1.0.0"

/-- The schema in source form. -/
def source : String := String.intercalate "\n" [
  "// Shapes exchanged between the renderer and its clients.",
  "schema shapes 1.0.0;",
  "",
  "scalar coord int32;",
  "",
  "enumeration color \x7b",
  "  RED;",
  "  GREEN;",
  "  BLUE;",
  "\x7d",
  "",
  "composite point \x7b",
  "  color color;",
  "  coord x;",
  "  coord y;",
  "\x7d",
  "",
  "variable_array path point[16] uint8;",
  "",
  "group shape \x7b",
  "  point dot;",
  "  path line;",
  "\x7d",
  ""]

structure Coord where
  value : Int32
  deriving DecidableEq, Repr

inductive Color
  | red
  | green
  | blue
  deriving DecidableEq, Repr

structure Point where
  color : Color
  x : Coord
  y : Coord
  deriving DecidableEq, Repr

/-- The greatest number of points of a path. -/
def maxPoints : Nat := 16

structure Path where
  points : List Point
  bounded : points.length ≤ maxPoints
  deriving DecidableEq, Repr

inductive Shape
  | dot (point : Point)
  | line (path : Path)
  deriving DecidableEq, Repr

/-! ## Construction -/

namespace Color

/-- The labels in the schema, in the order of the ordinals. -/
def labels : List String := ["RED", "GREEN", "BLUE"]

def ordinal : Color → UInt8
  | red => 0
  | green => 1
  | blue => 2

def ofOrdinal? : UInt8 → Option Color
  | 0 => some red
  | 1 => some green
  | 2 => some blue
  | _ => none

def label : Color → String
  | red => "RED"
  | green => "GREEN"
  | blue => "BLUE"

end Color

/-- The fault of a path with too many points. -/
def pathTooLong (length : Nat) : WireError :=
  .length "path" length maxPoints

/-- A path through the points, if they are not too many. -/
def Path.make? (points : List Point) : Except WireError Path :=
  if h : points.length ≤ maxPoints then .ok ⟨points, h⟩
  else .error (pathTooLong points.length)

namespace Shape

/-- The variants in the schema, in the order of the tags. -/
def variants : List String := ["dot", "line"]

def tag : Shape → UInt8
  | dot _ => 0
  | line _ => 1

end Shape

/-! ## Codecs -/

instance : Codec Coord where
  typeName := "Coord"
  encode c := Codec.encode c.value
  decode := do return ⟨← Codec.decode⟩

instance : Codec Color where
  typeName := "Color"
  encode c := Codec.encode c.ordinal
  decode := do
    let ordinal : UInt8 ← Codec.decode
    match Color.ofOrdinal? ordinal with
    | some c => return c
    | none => throw (.invalidEnumerationValue "color" ordinal.toNat)

instance : Codec Point where
  typeName := "Point"
  encode p := do
    Codec.encode p.color
    Codec.encode p.x
    Codec.encode p.y
  decode := do
    let color ← Codec.decode
    let x ← Codec.decode
    let y ← Codec.decode
    return ⟨color, x, y⟩

instance : Codec Path where
  typeName := "Path"
  encode p := do
    Codec.encode (UInt8.ofNat p.points.length)
    p.points.forM Codec.encode
  decode := do
    let length : UInt8 ← Codec.decode
    if h : length.toNat ≤ maxPoints then
      let ⟨points, hlength⟩ ← Decoder.exactly length.toNat Codec.decode
      return ⟨points, hlength ▸ h⟩
    else throw (pathTooLong length.toNat)

instance : Codec Shape where
  typeName := "Shape"
  encode s := do
    Codec.encode s.tag
    match s with
    | .dot point => Codec.encode point
    | .line path => Codec.encode path
  decode := do
    let tag : UInt8 ← Codec.decode
    match tag with
    | 0 => return .dot (← Codec.decode)
    | 1 => return .line (← Codec.decode)
    | _ => throw (.invalidVariant "shape" tag.toNat)

/-! ## Text -/

def Coord.text (c : Coord) : String :=
  s!"Coord({c.value.toInt})"

def Color.text : Color → String
  | red => "Red"
  | green => "Green"
  | blue => "Blue"

def Point.text (p : Point) : String :=
  s!"Point \x7b color: {p.color.text}, x: {p.x.text}, y: {p.y.text} \x7d"

def Path.text (p : Path) : String :=
  "Path([" ++ String.intercalate ", " (p.points.map Point.text) ++ "])"

def Shape.text : Shape → String
  | dot point => s!"Dot({point.text})"
  | line path => s!"Line({path.text})"

end WireCodec.Sample.Shapes
