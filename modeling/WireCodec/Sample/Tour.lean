import WireCodec.Sample.Shapes
import WireCodec.Source.Compile
import WireCodec.Value.Construct
import WireCodec.Value.Unpack

/-!
# A tour of the library

A line of two points goes through the dynamic codec and comes back through the typed one; then
two values are refused.
-/

namespace WireCodec.Sample.Tour

open Shapes

/-- Two hexadecimal digits. -/
def hexByte (b : UInt8) : String :=
  String.ofList [Nat.digitChar (b.toNat / 16), Nat.digitChar (b.toNat % 16)]

/-- A point from fields that are not in declaration order. -/
def point (s : Schema) (color : String) (x y : Int) : Except WireError Value := do
  let x ← Value.makeInteger s "coord" x
  let y ← Value.makeInteger s "coord" y
  let color ← Value.makeLabel s "color" color
  Value.makeComposite s "point" [("x", x), ("y", y), ("color", color)]

/-- The line from the origin to another point. -/
def line (s : Schema) : Except WireError Value := do
  let start ← point s "RED" 0 0
  let finish ← point s "BLUE" 100 (-200)
  let path ← Value.makeVariableArray s "path" [start, finish]
  Value.makeGroup s "shape" "line" path

/-- The points of a line, one a text line. -/
def pointLines : Shape → List String
  | .dot _ => []
  | .line path => path.points.zipIdx.map fun (p, i) =>
    s!"  point[{i}] = ({p.x.value.toInt}, {p.y.value.toInt}) {p.color.label}"

/-- A text line with the fault of a refused value; nothing for an accepted one. -/
def refusal {α : Type} : Except WireError α → List String
  | .ok _ => []
  | .error e => [s!"error   = {e.message}"]

/-- The report on the values of the shapes schema. -/
def reportOn (s : Schema) : Except WireError (List String) := do
  let value ← line s
  let bytes ← s.pack "shape" value
  let decoded ← Codec.unpack Shape bytes
  return [
    s!"schema  = {s.name} {s.version.text}",
    s!"value   = {value.text}",
    "packed  = [" ++ String.intercalate ", " (bytes.map hexByte) ++ "]",
    s!"decoded = {decoded.text}"] ++
    pointLines decoded ++
    refusal (Value.makeInteger s "uint8" 256) ++
    refusal (s.unpack "color" [7])

/-- The lines of the tour, or the message of what went wrong. -/
def report : Except String (List String) := do
  let s ← (Source.compile Shapes.source).mapError CompileError.message
  (reportOn s).mapError WireError.message

end WireCodec.Sample.Tour
