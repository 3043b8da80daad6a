import WireCodec.Schema.Builtin
import WireCodec.Version

/-!
# Faults of a schema
-/

namespace WireCodec

/-- Why a type or a schema is refused. -/
inductive SchemaError
  | invalidName (name : String)
  | invalidVersion (version : String) (reason : VersionError)
  | duplicateType (name : String)
  | reservedName (name : String)
  | unknownType (referenced user : String)
  | duplicateName (typeName name : String)
  | empty (typeName : String)
  | nonPositiveSize (typeName : String)
  | invalidSizeType (typeName : String) (sizeType : Builtin)
  | sizeTypeOverflow (typeName : String) (max : Nat) (sizeType : Builtin)
  | cyclic (cycle : List String)
  deriving DecidableEq, Repr

def SchemaError.message : SchemaError → String
  | invalidName name => s!"Invalid identifier \"{name}\""
  | invalidVersion version reason => s!"Invalid schema version \"{version}\": {reason.message}"
  | duplicateType name => s!"The type \"{name}\" is defined twice"
  | reservedName name => s!"The type name \"{name}\" is reserved"
  | unknownType referenced user => s!"The type \"{referenced}\" used by \"{user}\" is not defined"
  | duplicateName typeName name => s!"The name \"{name}\" is declared twice in \"{typeName}\""
  | empty typeName => s!"The type \"{typeName}\" must declare at least one entry"
  | nonPositiveSize typeName => s!"The size of \"{typeName}\" must be positive"
  | invalidSizeType typeName sizeType =>
    s!"The size type {sizeType.name} of \"{typeName}\" is not an unsigned integer"
  | sizeTypeOverflow typeName max sizeType =>
    s!"The maximum {max} of \"{typeName}\" does not fit in size type {sizeType.name}"
  | cyclic cycle => "Cyclic schema: " ++ String.intercalate " -> " cycle

end WireCodec
