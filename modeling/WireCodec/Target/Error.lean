import WireCodec.Schema.TypeDef

/-!
# Faults of code generation
-/

namespace WireCodec

/-- Why no code is generated. -/
inductive TargetError
  | unsupportedTarget (language : String) (kind : Option TypeKind)
  | duplicateBuilder (language : String) (kind : TypeKind)
  | duplicateLanguage (language : String)
  | nameCollision (language scope first second mangled : String)
  | reservedName (language scope name mangled : String)
  | arrayTooLarge (language typeName : String) (count limit : Nat)
  | unknownType (typeName : String)
  | kindMismatch (typeName : String) (expected : TypeKind)
  | invalidProject (project : String)
  deriving DecidableEq, Repr

def TargetError.message : TargetError → String
  | unsupportedTarget language none => s!"Unsupported target \"{language}\""
  | unsupportedTarget language (some kind) =>
    s!"Unsupported target \"{language}\": no builder for {kind.name}"
  | duplicateBuilder language kind =>
    s!"A {kind.name} builder is already registered for \"{language}\""
  | duplicateLanguage language => s!"The language \"{language}\" is already registered"
  | nameCollision language scope first second mangled =>
    s!"\"{first}\" and \"{second}\" in {scope} both render as {mangled} in {language}"
  | reservedName language scope name mangled =>
    s!"\"{name}\" in {scope} renders as {mangled}, which {language} output already uses"
  | arrayTooLarge language typeName count limit =>
    s!"The {language} declaration of \"{typeName}\" would hold {count} elements (limit {limit})"
  | unknownType typeName => s!"The type \"{typeName}\" is not part of the schema being rendered"
  | kindMismatch typeName expected =>
    s!"The type \"{typeName}\" was handed to a {expected.name} builder"
  | invalidProject project => s!"Invalid project name \"{project}\""

end WireCodec
