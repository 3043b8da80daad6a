import WireCodec.Schema.Size
import WireCodec.Target.Error
import WireCodec.Target.Page

/-!
# Builders and emitters

A builder writes the code of one kind of type in one target language: how the type is referred
to, its declaration, and the routines that pack and unpack it.  A builder does not write
references to other types itself; it is handed a function that asks the builder of the other
type.  An emitter lays out the files of a language.
-/

namespace WireCodec

/-- A step that writes code; it cannot fail. -/
abbrev CodeStep := Page.Step Empty

/-- Steps that write code. -/
abbrev Code := List CodeStep

/-- How a type of the schema is referred to, by its schema name. -/
abbrev Referrer := String → Except TargetError String

/-- What a builder writes for a type. -/
abbrev Rendering := Referrer → TypeDef → Except TargetError Code

structure Builder where
  reference : TypeDef → Except TargetError String
  declaration : Rendering
  pack : Rendering
  unpack : Rendering

/-- What an emitter works with: the schema, and the builders of every language. -/
structure RenderContext where
  language : String
  project : String
  schema : Schema
  lookup : String → TypeKind → Except TargetError Builder

/-- A generated file; its path is relative to the directory of the project. -/
structure GeneratedFile where
  path : String
  contents : String
  deriving DecidableEq, Repr

structure Emitter where
  /-- Other names that the language is selected by. -/
  aliases : List String
  /-- Refuses schemas that the language cannot express. -/
  check : RenderContext → Except TargetError Unit
  emit : RenderContext → Except TargetError (List GeneratedFile)

namespace RenderContext

/-- The builder for a kind of type in the language of the project. -/
def builder (ctx : RenderContext) (kind : TypeKind) : Except TargetError Builder :=
  ctx.lookup ctx.language kind

/-- The definition of a type of the schema. -/
def definition (ctx : RenderContext) (typeName : String) : Except TargetError TypeDef :=
  match ctx.schema.get? typeName with
  | some d => .ok d
  | none => .error (.unknownType typeName)

/-- The reference to a type, written by the builder of its kind. -/
def reference (ctx : RenderContext) : Referrer := fun typeName => do
  let d ← ctx.definition typeName
  (← ctx.builder d.kind).reference d

def declaration (ctx : RenderContext) (d : TypeDef) : Except TargetError Code := do
  (← ctx.builder d.kind).declaration ctx.reference d

def pack (ctx : RenderContext) (d : TypeDef) : Except TargetError Code := do
  (← ctx.builder d.kind).pack ctx.reference d

def unpack (ctx : RenderContext) (d : TypeDef) : Except TargetError Code := do
  (← ctx.builder d.kind).unpack ctx.reference d

end RenderContext

/-- The fault of a definition that came to a builder for another kind. -/
def mismatch {α : Type} (d : TypeDef) (expected : TypeKind) : Except TargetError α :=
  .error (.kindMismatch d.name expected)

/-- A builder that writes nothing for the three parts. -/
def writeNothing : Rendering := fun _ _ => .ok []

namespace TypeDef

def asScalar (d : TypeDef) : Except TargetError Scalar :=
  match d with
  | .scalar t => .ok t
  | _ => mismatch d .scalar

def asEnumeration (d : TypeDef) : Except TargetError Enumeration :=
  match d with
  | .enumeration t => .ok t
  | _ => mismatch d .enumeration

def asComposite (d : TypeDef) : Except TargetError Composite :=
  match d with
  | .composite t => .ok t
  | _ => mismatch d .composite

def asFixedArray (d : TypeDef) : Except TargetError FixedArray :=
  match d with
  | .fixedArray t => .ok t
  | _ => mismatch d .fixedArray

def asVariableArray (d : TypeDef) : Except TargetError VariableArray :=
  match d with
  | .variableArray t => .ok t
  | _ => mismatch d .variableArray

def asGroup (d : TypeDef) : Except TargetError Group :=
  match d with
  | .group t => .ok t
  | _ => mismatch d .group

/-- The builtin of a builtin definition. -/
def asBuiltin (d : TypeDef) : Except TargetError Builtin :=
  match d with
  | .builtin b => .ok b
  | _ => mismatch d .builtin

/-- The builtin that a builtin or scalar is encoded as. -/
def encodedBuiltin (d : TypeDef) : Except TargetError Builtin :=
  match d.asBuiltin? with
  | some b => .ok b
  | none => mismatch d .builtin

end TypeDef

namespace Code

/-- Lines of code. -/
def lines (texts : List String) : Code := texts.map .line

/-- `head` and an opening brace, the body, and `closing`. -/
def blockUntil (closing head : String) (body : Code) : CodeStep :=
  .braces (head ++ " \x7b") closing body

/-- `head` and an opening brace, the body, and a closing brace. -/
def block (head : String) (body : Code) : CodeStep :=
  blockUntil "\x7d" head body

end Code
end WireCodec
