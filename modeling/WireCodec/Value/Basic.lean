import WireCodec.Number.FloatText
import WireCodec.Wire.Error

/-!
# Dynamic values

A value holds data of any type of a schema without knowing the type.  Composites hold their
fields by name, in any order.
-/

namespace WireCodec

inductive Value
  | integer (value : Int)
  | float (value : Double)
  | label (name : String)
  | composite (fields : List (String × Value))
  | fixedArray (elements : List Value)
  | variableArray (elements : List Value)
  | group (variant : String) (payload : Value)
  deriving Inhabited

namespace Value

def kind : Value → ValueKind
  | integer _ => .integer
  | float _ => .float
  | label _ => .enumeration
  | composite _ => .composite
  | fixedArray _ => .fixedArray
  | variableArray _ => .variableArray
  | group _ _ => .group

def asInteger? : Value → Option Int
  | integer value => some value
  | _ => none

def asFloat? : Value → Option Double
  | float value => some value
  | _ => none

def asLabel? : Value → Option String
  | label name => some name
  | _ => none

/-- The elements of an array of either kind; other values have none. -/
def elements : Value → List Value
  | fixedArray vs => vs
  | variableArray vs => vs
  | _ => []

/-- The first field of that name of a composite. -/
def get? : Value → String → Option Value
  | composite fields, name => fields.lookup name
  | _, _ => none

mutual

/-- The same value, with floats compared as numbers and fields in the same order. -/
def same : Value → Value → Bool
  | integer a, integer b => a = b
  | float a, float b => a.sameNumber b
  | label a, label b => a = b
  | composite as, composite bs => sameFields as bs
  | fixedArray as, fixedArray bs => sameElements as bs
  | variableArray as, variableArray bs => sameElements as bs
  | group a x, group b y => a = b && same x y
  | _, _ => false

def sameFields : List (String × Value) → List (String × Value) → Bool
  | [], [] => true
  | (a, x) :: as, (b, y) :: bs => a = b && same x y && sameFields as bs
  | _, _ => false

def sameElements : List Value → List Value → Bool
  | [], [] => true
  | x :: as, y :: bs => same x y && sameElements as bs
  | _, _ => false

end

mutual

/-- The pieces of the text of a value. -/
def pieces : Value → List String
  | integer value => [toString value]
  | float value => [value.general]
  | label name => [name]
  | composite fields => ["\x7b"] ++ fieldPieces fields ++ ["\x7d"]
  | fixedArray vs => ["["] ++ elementPieces vs ++ ["]"]
  | variableArray vs => ["["] ++ elementPieces vs ++ ["]"]
  | group variant payload => [variant, "("] ++ pieces payload ++ [")"]

def fieldPieces : List (String × Value) → List String
  | [] => []
  | [(name, v)] => [name, ": "] ++ pieces v
  | (name, v) :: fields => [name, ": "] ++ pieces v ++ [", "] ++ fieldPieces fields

def elementPieces : List Value → List String
  | [] => []
  | [v] => pieces v
  | v :: vs => pieces v ++ [", "] ++ elementPieces vs

end

/-- The value as text: arrays in brackets, composites in braces, a payload in parentheses behind
its variant. -/
def text (v : Value) : String :=
  String.join v.pieces

end Value
end WireCodec
