import WireCodec.Target.C
import WireCodec.Target.Ruby
import WireCodec.Target.Rust

/-!
# The registry of all languages

Files can be generated in C, Ruby and Rust.
-/

namespace WireCodec

/-- The backends that come with the library. -/
def backends : List Backend :=
  [Target.C.backend, Target.Ruby.backend, Target.Rust.backend]

/-- A registry with all backends. -/
def Registry.withBackends : Except TargetError Registry :=
  match (backends.forM Registry.registerBackend) Registry.empty with
  | .ok _ r => .ok r
  | .error e _ => .error e

end WireCodec
