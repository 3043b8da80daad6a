import WireCodec.Target.Error
import Std.Data.HashMap

/-!
# Names of a scope

Schema names are mangled to fit a target language.  In each scope of the generated code the
mangled names have to be distinct and must not be among the reserved ones.
-/

namespace WireCodec

/-- A schema name and the identifier it is written as. -/
structure MangledName where
  name : String
  mangled : String
  deriving DecidableEq, Repr

/-- Checks names behind those in `seen`, which maps identifiers to schema names. -/
def checkScopeAfter (language scope : String) (reserved : List String)
    (seen : Std.HashMap String String) : List MangledName → Except TargetError Unit
  | [] => .ok ()
  | n :: names =>
    if n.mangled ∈ reserved then .error (.reservedName language scope n.name n.mangled)
    else
      match seen[n.mangled]? with
      | some first => .error (.nameCollision language scope first n.name n.mangled)
      | none => checkScopeAfter language scope reserved (seen.insert n.mangled n.name) names

/-- The first name whose identifier is reserved or already taken is a fault. -/
def checkScope (language scope : String) (reserved : List String) (names : List MangledName) :
    Except TargetError Unit :=
  checkScopeAfter language scope reserved ∅ names

end WireCodec
