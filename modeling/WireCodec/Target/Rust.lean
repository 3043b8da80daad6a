import WireCodec.Target.Names
import WireCodec.Target.Registry
import WireCodec.Text.Naming
import WireCodec.Text.Quoted

/-!
# Rust code

A project is one file that implements packing and unpacking for the types of the schema.
Builtins are the primitive types, whose codecs are in a runtime library.  Arrays keep their
elements private, so that their number is checked when they are made.
-/

namespace WireCodec.Target.Rust

open Code

/-- The name by which the language is selected. -/
def language : String := "rust"

/-- The indentation of the file. -/
def unit : String := "    "

/-! ## Names -/

def keywords : List String := [
  "as", "break", "const", "continue", "crate", "else", "enum", "extern", "false", "fn", "for",
  "if", "impl", "in", "let", "loop", "match", "mod", "move", "mut", "pub", "ref", "return",
  "self", "Self", "static", "struct", "super", "trait", "true", "type", "unsafe", "use", "where",
  "while", "async", "await", "dyn"]

/-- Names in scope everywhere that a type must not hide. -/
def ambientTypes : List String :=
  ["Box", "Err", "None", "Ok", "Option", "Result", "Some", "String", "Vec"]

def typeName (name : String) : String :=
  Text.escapeKeyword keywords (Text.pascalCase name)

def fieldName (name : String) : String :=
  Text.escapeKeyword keywords (Text.snakeCase name)

def primitive : Builtin → String
  | .int8 => "i8"
  | .int16 => "i16"
  | .int32 => "i32"
  | .int64 => "i64"
  | .uint8 => "u8"
  | .uint16 => "u16"
  | .uint32 => "u32"
  | .uint64 => "u64"
  | .float32 => "f32"
  | .float64 => "f64"

/-- The names inside a type are distinct. -/
def checkDefinition (language : String) (d : TypeDef) : Except TargetError Unit :=
  let scope := s!"{d.kind.name} {d.name}"
  match d with
  | .enumeration t => checkScope language scope [] (t.labels.map fun l => ⟨l, typeName l⟩)
  | .composite t =>
    checkScope language scope [] (t.fields.map fun f => ⟨f.name, fieldName f.name⟩)
  | .group t =>
    checkScope language scope [] (t.variants.map fun v => ⟨v.name, typeName v.name⟩)
  | _ => .ok ()

def check (ctx : RenderContext) : Except TargetError Unit := do
  let declared := ctx.schema.declared
  checkScope ctx.language "types" ambientTypes (declared.map fun d => ⟨d.name, typeName d.name⟩)
  declared.forM (checkDefinition ctx.language)

/-! ## Types -/

def packImpl (name : String) (body : Code) : Code :=
  [block s!"impl wire::Pack for {name}" [
    block "fn pack_into(&self, bb: &mut wire::ByteBufferMut) -> Result<(), wire::WireError>" body]]

def unpackImpl (name : String) (body : Code) : Code :=
  [block s!"impl wire::Unpack for {name}" [
    block "fn unpack_from(bb: &mut wire::ByteBuffer) -> Result<Self, wire::WireError>" body]]

/-- Refuses a number of elements. -/
def lengthGuard (condition schemaName length limit : String) : CodeStep :=
  block s!"if {condition}" [
    blockUntil "\x7d);" "return Err(wire::WireError::Length" (lines [
      s!"type_name: {Text.quote schemaName}.to_string(),",
      s!"len:       {length},",
      s!"limit:     {limit},"])]

def builtinBuilder : Builder where
  reference d := primitive <$> d.asBuiltin
  declaration := writeNothing
  pack := writeNothing
  unpack := writeNothing

def scalarBuilder : Builder where
  reference d := do return typeName (← d.asScalar).name
  declaration refer d := do
    let t ← d.asScalar
    let name := typeName t.name
    let inner ← refer t.builtin.name
    return [
      .line s!"/// `{t.name}`, encoded as {t.builtin.name}.",
      .line "#[derive(Debug, Clone, Copy, PartialEq)]",
      .line s!"pub struct {name}(pub {inner});",
      .blank,
      block s!"impl {name}" [
        block s!"pub fn new(value: {inner}) -> Result<Self, wire::WireError>" (lines [
          s!"let value = {name}(value);",
          "wire::Pack::validate(&value)?;",
          "Ok(value)"])]]
  pack _ d := do
    let t ← d.asScalar
    return packImpl (typeName t.name) (lines ["self.0.pack_into(bb)"])
  unpack refer d := do
    let t ← d.asScalar
    let name := typeName t.name
    let inner ← refer t.builtin.name
    return unpackImpl name (lines [s!"Ok({name}({inner}::unpack_from(bb)?))"])

/-- Quoted texts, divided by commas. -/
def quotedList (names : List String) : String :=
  String.intercalate ", " (names.map Text.quote)

def enumerationBuilder : Builder where
  reference d := do return typeName (← d.asEnumeration).name
  declaration refer d := do
    let t ← d.asEnumeration
    let name := typeName t.name
    let tag ← refer t.tagType.name
    let choices := t.labels.zipIdx.map fun (l, i) => s!"{i} => Some({name}::{typeName l}),"
    return [
      .line "#[derive(Debug, Clone, Copy, PartialEq, Eq, Hash)]",
      block s!"pub enum {name}" (lines (t.labels.map fun l => s!"{typeName l},")),
      .blank,
      block s!"impl {name}" [
        .line s!"pub const LABELS: [&'static str; {t.labels.length}] = [{quotedList t.labels}];",
        .blank,
        block s!"pub fn ordinal(self) -> {tag}" (lines [s!"self as {tag}"]),
        .blank,
        block s!"pub fn from_ordinal(ordinal: {tag}) -> Option<Self>" [
          block "match ordinal" (lines (choices ++ ["_ => None,"]))],
        .blank,
        block "pub fn label(self) -> &'static str" (lines ["Self::LABELS[self as usize]"])]]
  pack _ d := do
    let t ← d.asEnumeration
    return packImpl (typeName t.name) (lines ["self.ordinal().pack_into(bb)"])
  unpack refer d := do
    let t ← d.asEnumeration
    let name := typeName t.name
    let tag ← refer t.tagType.name
    return unpackImpl name [
      .line s!"let ordinal = {tag}::unpack_from(bb)?;",
      blockUntil "\x7d)"
        s!"{name}::from_ordinal(ordinal).ok_or_else(|| wire::WireError::InvalidEnumerationValue"
        (lines [
          s!"type_name: {Text.quote t.name}.to_string(),",
          "value:     u64::from(ordinal),"])]

/-- Keeps the buffer from being reported as unused where there are no fields. -/
def ignoreBuffer (fields : List Field) : Code :=
  if fields = [] then lines ["let _ = bb;"] else []

def compositeBuilder : Builder where
  reference d := do return typeName (← d.asComposite).name
  declaration refer d := do
    let t ← d.asComposite
    let members ← t.fields.mapM fun f => do
      return s!"pub {fieldName f.name}: {← refer f.typeName},"
    return [
      .line "#[derive(Debug, Clone, PartialEq)]",
      block s!"pub struct {typeName t.name}" (lines members)]
  pack _ d := do
    let t ← d.asComposite
    let calls := t.fields.map fun f => s!"self.{fieldName f.name}.pack_into(bb)?;"
    return packImpl (typeName t.name) (ignoreBuffer t.fields ++ lines (calls ++ ["Ok(())"]))
  unpack refer d := do
    let t ← d.asComposite
    let name := typeName t.name
    let members ← t.fields.mapM fun f => do
      return s!"{fieldName f.name}: {← refer f.typeName}::unpack_from(bb)?,"
    return unpackImpl name
      (ignoreBuffer t.fields ++ [blockUntil "\x7d)" s!"Ok({name}" (lines members)])

/-- The declaration of an array of either kind.  `limit` is the name of the constant that bounds
the number of elements, and `refused` the comparison with it that is refused. -/
def arrayDeclaration (doc schemaName element limit refused : String) (value : Nat) : Code :=
  let name := typeName schemaName
  [.line s!"/// {doc}",
    .line "#[derive(Debug, Clone, PartialEq)]",
    .line s!"pub struct {name}(Vec<{element}>);",
    .blank,
    block s!"impl {name}" [
      .line s!"pub const {limit}: usize = {value};",
      .blank,
      block s!"pub fn new(elements: Vec<{element}>) -> Result<Self, wire::WireError>" [
        lengthGuard s!"elements.len() {refused} Self::{limit}" schemaName "elements.len() as u64"
          s!"Self::{limit} as u64",
        .line s!"let value = {name}(elements);",
        .line "wire::Pack::validate(&value)?;",
        .line "Ok(value)"],
      .blank,
      block s!"pub fn elements(&self) -> &[{element}]" (lines ["&self.0"]),
      .blank,
      block s!"pub fn into_elements(self) -> Vec<{element}>" (lines ["self.0"])]]

/-- Packs the elements of an array. -/
def packElements : Code := [
  block "for element in &self.0" (lines ["element.pack_into(bb)?;"]),
  .line "Ok(())"]

/-- Unpacks as many elements as a range has indices. -/
def unpackElements (name element range : String) : Code := [
  block s!"for _ in {range}" (lines [s!"elements.push({element}::unpack_from(bb)?);"]),
  .line s!"Ok({name}(elements))"]

def fixedArrayBuilder : Builder where
  reference d := do return typeName (← d.asFixedArray).name
  declaration refer d := do
    let t ← d.asFixedArray
    let element ← refer t.element
    return arrayDeclaration s!"Exactly {t.count} elements." t.name element "COUNT" "!=" t.count
  pack _ d := do
    let t ← d.asFixedArray
    return packImpl (typeName t.name) packElements
  unpack refer d := do
    let t ← d.asFixedArray
    let name := typeName t.name
    let element ← refer t.element
    return unpackImpl name (
      .line "let mut elements = Vec::with_capacity(Self::COUNT.min(bb.remaining()));" ::
      unpackElements name element "0..Self::COUNT")

def variableArrayBuilder : Builder where
  reference d := do return typeName (← d.asVariableArray).name
  declaration refer d := do
    let t ← d.asVariableArray
    let element ← refer t.element
    return arrayDeclaration s!"At most {t.max} elements, prefixed by a {t.sizeType.name} count."
      t.name element "MAX" ">" t.max
  pack refer d := do
    let t ← d.asVariableArray
    let size ← refer t.sizeType.name
    return packImpl (typeName t.name) ([
      lengthGuard "self.0.len() > Self::MAX" t.name "self.0.len() as u64" "Self::MAX as u64",
      .line s!"(self.0.len() as {size}).pack_into(bb)?;"] ++ packElements)
  unpack refer d := do
    let t ← d.asVariableArray
    let name := typeName t.name
    let size ← refer t.sizeType.name
    let element ← refer t.element
    return unpackImpl name ([
      .line s!"let len = u64::from({size}::unpack_from(bb)?);",
      lengthGuard "len > Self::MAX as u64" t.name "len" "Self::MAX as u64",
      .line "let mut elements = Vec::with_capacity((len as usize).min(bb.remaining()));"] ++
      unpackElements name element "0..len")

def groupBuilder : Builder where
  reference d := do return typeName (← d.asGroup).name
  declaration refer d := do
    let t ← d.asGroup
    let name := typeName t.name
    let tag ← refer t.tagType.name
    let variants ← t.variants.mapM fun v => do
      return s!"{typeName v.name}({← refer v.typeName}),"
    let names := fieldNames t.variants
    let tags := names.zipIdx.map fun (v, i) => s!"{name}::{typeName v}(_) => {i},"
    return [
      .line "#[derive(Debug, Clone, PartialEq)]",
      block s!"pub enum {name}" (lines variants),
      .blank,
      block s!"impl {name}" [
        .line s!"pub const VARIANTS: [&'static str; {names.length}] = [{quotedList names}];",
        .blank,
        block s!"pub fn tag(&self) -> {tag}" [block "match self" (lines tags)]]]
  pack _ d := do
    let t ← d.asGroup
    let name := typeName t.name
    let calls := t.variants.map fun v =>
      s!"{name}::{typeName v.name}(payload) => payload.pack_into(bb),"
    return packImpl name [
      .line "self.tag().pack_into(bb)?;",
      block "match self" (lines calls)]
  unpack refer d := do
    let t ← d.asGroup
    let name := typeName t.name
    let tag ← refer t.tagType.name
    let calls ← t.variants.zipIdx.mapM fun (v, i) => do
      return s!"{i} => Ok({name}::{typeName v.name}({← refer v.typeName}::unpack_from(bb)?)),"
    return unpackImpl name [
      block s!"match {tag}::unpack_from(bb)?" (lines calls ++ [
        blockUntil "\x7d)," "tag => Err(wire::WireError::InvalidVariant" (lines [
          s!"type_name: {Text.quote t.name}.to_string(),",
          "value:     u64::from(tag),"])])]

def builder : TypeKind → Builder
  | .builtin => builtinBuilder
  | .scalar => scalarBuilder
  | .enumeration => enumerationBuilder
  | .composite => compositeBuilder
  | .fixedArray => fixedArrayBuilder
  | .variableArray => variableArrayBuilder
  | .group => groupBuilder

/-! ## Files -/

/-- What the file holds for a type. -/
def renderType (ctx : RenderContext) (d : TypeDef) : Except TargetError Code := do
  let declaration ← ctx.declaration d
  let pack ← ctx.pack d
  let unpack ← ctx.unpack d
  return [.blank] ++ declaration ++ [.blank] ++ pack ++ [.blank] ++ unpack

/-- Imports and constants, and behind them the types. -/
def source (ctx : RenderContext) (types : List Code) : Code :=
  let s := ctx.schema
  [.line s!"// Generated by bwire from schema {s.name} {s.version.text}. Do not edit.",
    .blank,
    .line "use brine_wire as wire;",
    .line "use brine_wire::\x7bPack as _, Unpack as _\x7d;",
    .blank,
    .line s!"pub const SCHEMA_NAME: &str = {Text.quote s.name};",
    .line s!"pub const SCHEMA_VERSION: &str = {Text.quote s.version.text};"] ++
  types.flatten

def emit (ctx : RenderContext) : Except TargetError (List GeneratedFile) := do
  let types ← ctx.schema.ordered.mapM (renderType ctx)
  return [⟨ctx.project ++ ".rs", (Page.ofSteps unit (source ctx types)).text⟩]

def emitter : Emitter := ⟨["rs"], check, emit⟩

def backend : Backend := ⟨language, emitter, builder⟩

end WireCodec.Target.Rust
