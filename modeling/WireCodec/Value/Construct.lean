import WireCodec.Value.Pack

/-!
# Checked construction of values

Each constructor returns a value that has an encoding as the given type.  A float32 is rounded to
single precision, and the fields of a composite are put into declaration order, so that decoding
the encoding gives the same value again.
-/

namespace WireCodec

namespace Value

/-- The value itself, if it has an encoding as the layout. -/
def checked (layout : Layout) (v : Value) : Except WireError Value := do
  Encoder.check (layout.pack v)
  return v

/-- An integer within the range of a builtin or scalar. -/
def makeInteger (s : Schema) (typeName : String) (v : Int) : Except WireError Value := do
  checked (← s.requireLayout typeName) (.integer v)

/-- The value that stands for `x` in a float type: rounded to single precision for float32. -/
def roundFor (layout : Layout) (x : Double) : Except WireError Double :=
  match layout with
  | .number typeName .float32 => do
    checkSingle typeName x
    return x.toSingle.toDouble
  | .number typeName .float64 => do
    checkDouble typeName x
    return x
  | _ => return x

def makeFloat (s : Schema) (typeName : String) (x : Double) : Except WireError Value := do
  let layout ← s.requireLayout typeName
  checked layout (.float (← roundFor layout x))

/-- One of the labels of an enumeration. -/
def makeLabel (s : Schema) (typeName label : String) : Except WireError Value := do
  match ← s.requireLayout typeName with
  | .enumeration name labels =>
    if label ∈ labels then return .label label else throw (.unknownLabel name label)
  | layout => throw (.typeMismatch layout.typeName .enumeration)

/-- The given fields in the order in which they are declared. -/
def arrange (typeName : String) (given : List (String × Value)) (declared : List String) :
    Except WireError (List (String × Value)) :=
  declared.mapM fun name =>
    match given.lookup name with
    | some v => .ok (name, v)
    | none => .error (.missingField typeName name)

/-- A composite from fields in any order; their names are the declared ones. -/
def makeComposite (s : Schema) (typeName : String) (given : List (String × Value)) :
    Except WireError Value := do
  let layout ← s.requireLayout typeName
  match layout with
  | .composite name fields =>
    let declared := fields.map Prod.fst
    checkGiven name declared [] given
    checked layout (.composite (← arrange name given declared))
  | _ => throw (.typeMismatch layout.typeName .composite)

def makeFixedArray (s : Schema) (typeName : String) (vs : List Value) :
    Except WireError Value := do
  checked (← s.requireLayout typeName) (.fixedArray vs)

def makeVariableArray (s : Schema) (typeName : String) (vs : List Value) :
    Except WireError Value := do
  checked (← s.requireLayout typeName) (.variableArray vs)

/-- A variant of a group with its payload. -/
def makeGroup (s : Schema) (typeName variant : String) (payload : Value) :
    Except WireError Value := do
  let layout ← s.requireLayout typeName
  match layout with
  | .group name variants =>
    if variant ∈ variants.map Prod.fst then checked layout (.group variant payload)
    else throw (.unknownLabel name variant)
  | _ => throw (.typeMismatch layout.typeName .group)

end Value
end WireCodec
