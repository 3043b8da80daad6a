/-!
# Faults of encoding and decoding
-/

namespace WireCodec

/-- The shapes of a dynamic value. -/
inductive ValueKind
  | integer
  | float
  | enumeration
  | composite
  | fixedArray
  | variableArray
  | group
  deriving DecidableEq, Repr

def ValueKind.name : ValueKind → String
  | integer => "integer"
  | float => "float"
  | enumeration => "enumeration"
  | composite => "composite"
  | fixedArray => "fixed array"
  | variableArray => "variable array"
  | group => "group"

/-- Why a value has no encoding, or bytes have no value. -/
inductive WireError
  | range (typeName value : String)
  | length (typeName : String) (len limit : Nat)
  | truncatedBuffer (needed remaining : Nat)
  | invalidEnumerationValue (typeName : String) (value : Nat)
  | invalidVariant (typeName : String) (value : Nat)
  | trailingBytes (typeName : String) (remaining : Nat)
  | unknownType (typeName : String)
  | typeMismatch (typeName : String) (found : ValueKind)
  | missingField (typeName field : String)
  | unknownField (typeName field : String)
  | duplicateField (typeName field : String)
  | unknownLabel (typeName label : String)
  deriving DecidableEq, Repr

def WireError.message : WireError → String
  | range typeName value => s!"Out of range value {value} for {typeName}"
  | length typeName len limit => s!"Invalid length {len} for {typeName} (limit {limit})"
  | truncatedBuffer needed remaining =>
    s!"Truncated buffer: needed {needed} bytes but only {remaining} remain"
  | invalidEnumerationValue typeName value => s!"Invalid enumeration value {value} for {typeName}"
  | invalidVariant typeName value => s!"Invalid variant {value} for {typeName}"
  | trailingBytes typeName remaining => s!"{remaining} trailing bytes after {typeName}"
  | unknownType typeName => s!"Unknown type \"{typeName}\""
  | typeMismatch typeName found => s!"A {found.name} value cannot be used as {typeName}"
  | missingField typeName field => s!"Missing field \"{field}\" of {typeName}"
  | unknownField typeName field => s!"Unknown field \"{field}\" for {typeName}"
  | duplicateField typeName field => s!"Field \"{field}\" of {typeName} is given twice"
  | unknownLabel typeName label => s!"Unknown label \"{label}\" for {typeName}"

end WireCodec
