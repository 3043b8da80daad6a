import WireCodec.Target.Builder
import WireCodec.Text.Identifier

/-!
# Registries

A registry holds one emitter for each language and one builder for each language and kind of type.
Neither can be registered twice.  `generate` looks up all it needs and runs the checks of the
emitter before anything is written.
-/

namespace WireCodec

structure Registry where
  /-- Emitters by language, in the order of the names of the languages. -/
  emitters : List (String × Emitter)
  builders : List ((String × TypeKind) × Builder)

/-- A language with its emitter and builders. -/
structure Backend where
  language : String
  emitter : Emitter
  builder : TypeKind → Builder

/-- ASCII letters in lower case, all else as it is. -/
def asciiLower (s : String) : String :=
  String.ofList (s.toList.map Char.toLower)

namespace Registry

def empty : Registry := ⟨[], []⟩

/-- Puts an emitter in front of the first language with a greater name. -/
def insertEmitter (language : String) (emitter : Emitter) :
    List (String × Emitter) → List (String × Emitter)
  | [] => [(language, emitter)]
  | (other, e) :: more =>
    if language < other then (language, emitter) :: (other, e) :: more
    else (other, e) :: insertEmitter language emitter more

def registerEmitter (r : Registry) (language : String) (emitter : Emitter) :
    Except TargetError Registry :=
  match r.emitters.lookup language with
  | some _ => .error (.duplicateLanguage language)
  | none => .ok { r with emitters := insertEmitter language emitter r.emitters }

def registerBuilder (r : Registry) (language : String) (kind : TypeKind) (builder : Builder) :
    Except TargetError Registry :=
  match r.builders.lookup (language, kind) with
  | some _ => .error (.duplicateBuilder language kind)
  | none => .ok { r with builders := ((language, kind), builder) :: r.builders }

/-- Registers builders one after the other, up to the first that is refused.  What was registered
before stays. -/
def registerBuilders (backend : Backend) : List TypeKind → EStateM TargetError Registry Unit
  | [] => pure ()
  | kind :: kinds => fun r =>
    match r.registerBuilder backend.language kind (backend.builder kind) with
    | .ok r => registerBuilders backend kinds r
    | .error e => .error e r

/-- Registers the emitter of a backend and then its builders. -/
def registerBackend (backend : Backend) : EStateM TargetError Registry Unit := fun r =>
  match r.registerEmitter backend.language backend.emitter with
  | .ok r => registerBuilders backend TypeKind.all r
  | .error e => .error e r

def emitter (r : Registry) (language : String) : Except TargetError Emitter :=
  match r.emitters.lookup language with
  | some e => .ok e
  | none => .error (.unsupportedTarget language none)

def builder (r : Registry) (language : String) (kind : TypeKind) : Except TargetError Builder :=
  match r.builders.lookup (language, kind) with
  | some b => .ok b
  | none => .error (.unsupportedTarget language (some kind))

/-- The first language with that name or alias; letter case does not matter in the name asked
for. -/
def language (r : Registry) (name : String) : Except TargetError String :=
  let wanted := asciiLower name
  match r.emitters.find? fun (l, e) => l = wanted || wanted ∈ e.aliases with
  | some (l, _) => .ok l
  | none => .error (.unsupportedTarget name none)

/-- The languages with an emitter, by name. -/
def languages (r : Registry) : List String :=
  r.emitters.map Prod.fst

def supports (r : Registry) (language : String) (kind : TypeKind) : Bool :=
  (r.builders.lookup (language, kind)).isSome

/-- The number of builders. -/
def size (r : Registry) : Nat :=
  r.builders.length

/-- What the emitter of a language works with. -/
def context (r : Registry) (language project : String) (s : Schema) : RenderContext :=
  { language, project, schema := s, lookup := r.builder }

/-- The files of a project that packs and unpacks the types of a schema. -/
def generate (r : Registry) (s : Schema) (language project : String) :
    Except TargetError (List GeneratedFile) := do
  if !Text.isIdentifier project then throw (.invalidProject project)
  let emitter ← r.emitter language
  s.ordered.forM fun d => do
    let _ ← r.builder language d.kind
  let ctx := r.context language project s
  emitter.check ctx
  emitter.emit ctx

end Registry
end WireCodec
