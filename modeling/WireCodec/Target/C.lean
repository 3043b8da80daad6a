import WireCodec.Number.FloatText
import WireCodec.Target.Names
import WireCodec.Target.Registry
import WireCodec.Text.Naming

/-!
# C code

A project is a header with declarations and prototypes and a source file with the routines.
Every routine returns a status.  Scalars are typedefs, enumerations are enums, and all other types
are structs; a group is a tag and a union.  Schema names that are keywords get an underscore where
they name members.
-/

namespace WireCodec.Target.C

open Code

/-- The name by which the language is selected. -/
def language : String := "c"

def keywords : List String := [
  "auto", "break", "case", "char", "const", "continue", "default", "do", "double", "else", "enum",
  "extern", "float", "for", "goto", "if", "inline", "int", "long", "register", "restrict",
  "return", "short", "signed", "sizeof", "static", "struct", "switch", "typedef", "union",
  "unsigned", "void", "volatile", "while", "bool", "true", "false"]

/-- Identifiers of the prelude and of the headers that it includes. -/
def preludeNames : List String := [
  "int8_t", "int16_t", "int32_t", "int64_t", "uint8_t", "uint16_t", "uint32_t", "uint64_t",
  "size_t", "wire_status", "wire_buffer", "wire_reader", "WIRE_OK", "WIRE_ERR_RANGE",
  "WIRE_ERR_LENGTH", "WIRE_ERR_TRUNCATED", "WIRE_ERR_INVALID_ENUM", "WIRE_ERR_INVALID_VARIANT",
  "WIRE_ERR_BUFFER_FULL", "WIRE_TRY", "WIRE_PRELUDE_H"]

/-- Status codes and buffers, shared by all headers. -/
def prelude : Code := [
  .line "#ifndef WIRE_PRELUDE_H",
  .line "#define WIRE_PRELUDE_H",
  .blank,
  blockUntil "\x7d;" "enum wire_status" (lines [
    "WIRE_OK = 0,",
    "WIRE_ERR_RANGE,",
    "WIRE_ERR_LENGTH,",
    "WIRE_ERR_TRUNCATED,",
    "WIRE_ERR_INVALID_ENUM,",
    "WIRE_ERR_INVALID_VARIANT,",
    "WIRE_ERR_BUFFER_FULL,"]),
  .blank,
  .line "/* Output buffer: pack routines append at `used`, never past `capacity`. */",
  blockUntil "\x7d;" "struct wire_buffer" (lines [
    "uint8_t * data;",
    "size_t capacity;",
    "size_t used;"]),
  .blank,
  .line "/* Input buffer: unpack routines consume from `pos` up to `len`. */",
  blockUntil "\x7d;" "struct wire_reader" (lines [
    "const uint8_t * data;",
    "size_t len;",
    "size_t pos;"]),
  .blank,
  .line "#define WIRE_TRY(expr) \\",
  .indented (lines [
    "do \x7b \\",
    "    enum wire_status wire_try_status_ = (expr); \\",
    "    if (wire_try_status_ != WIRE_OK) \x7b \\",
    "        return wire_try_status_; \\",
    "    \x7d \\",
    "\x7d while (0)"]),
  .blank,
  .line "#endif /* WIRE_PRELUDE_H */"]

/-- The greatest number of elements of an array member.  A struct reserves room for all of them
and is copied on the stack. -/
def maxElements : Nat := 65536

/-- The indentation of the files. -/
def unit : String := "    "

/-! ## Names -/

/-- A member of a struct or union. -/
def member (name : String) : String :=
  Text.escapeKeyword keywords name

/-- An enumerator. -/
def constant (typeName label : String) : String :=
  Text.toUppercase (typeName ++ "_" ++ label)

/-- The enum of the tags of a group. -/
def tagEnum (t : Group) : String :=
  t.name ++ "_tag"

def primitive : Builtin → String
  | .int8 => "int8_t"
  | .int16 => "int16_t"
  | .int32 => "int32_t"
  | .int64 => "int64_t"
  | .uint8 => "uint8_t"
  | .uint16 => "uint16_t"
  | .uint32 => "uint32_t"
  | .uint64 => "uint64_t"
  | .float32 => "float"
  | .float64 => "double"

/-- The names of struct and enum tags that a definition declares. -/
def tagNames : TypeDef → List MangledName
  | .builtin _ => []
  | .scalar _ => []
  | .group t => [⟨t.name, t.name⟩, ⟨t.name, tagEnum t⟩]
  | d => [⟨d.name, d.name⟩]

/-- The typedefs, enumerators, functions and macros that a definition declares. -/
def ordinaryNames (d : TypeDef) : List MangledName :=
  [⟨d.name, "pack_" ++ d.name⟩, ⟨d.name, "unpack_" ++ d.name⟩,
    ⟨d.name, "MAX_ENCODED_LENGTH_" ++ d.name⟩] ++
  match d with
  | .scalar t => [⟨t.name, t.name⟩]
  | .enumeration t => t.labels.map fun l => ⟨l, constant t.name l⟩
  | .group t => t.variants.map fun v => ⟨v.name, constant (tagEnum t) v.name⟩
  | _ => []

/-- Members of one struct or union are distinct. -/
def checkMembers (language scope : String) (fields : List Field) : Except TargetError Unit :=
  checkScope language scope [] (fields.map fun f => ⟨f.name, member f.name⟩)

/-- An array member has a bounded number of elements. -/
def checkArraySize (typeName : String) (count : Nat) : Except TargetError Unit :=
  if maxElements < count then .error (.arrayTooLarge language typeName count maxElements)
  else .ok ()

/-- What is checked on one definition alone. -/
def checkDefinition (language : String) : TypeDef → Except TargetError Unit
  | .group t => checkMembers language ("group " ++ t.name) t.variants
  | .composite t => checkMembers language ("composite " ++ t.name) t.fields
  | .fixedArray t => checkArraySize t.name t.count
  | .variableArray t => checkArraySize t.name t.max
  | _ => .ok ()

def check (ctx : RenderContext) : Except TargetError Unit := do
  let declared := ctx.schema.declared
  let reserved := keywords ++ preludeNames
  declared.forM (checkDefinition ctx.language)
  checkScope ctx.language "struct and enum tags" reserved (declared.flatMap tagNames)
  checkScope ctx.language "typedefs and enumerators" reserved (declared.flatMap ordinaryNames)

/-! ## Routines -/

def packSignature (refer : Referrer) (d : TypeDef) : Except TargetError String := do
  return s!"enum wire_status pack_{d.name}(struct wire_buffer * buf, const {← refer d.name} * src)"

def unpackSignature (refer : Referrer) (d : TypeDef) : Except TargetError String := do
  return s!"enum wire_status unpack_{d.name}(struct wire_reader * rd, {← refer d.name} * dst)"

/-- Returns a status if a condition holds. -/
def returnIf (condition status : String) : CodeStep :=
  block s!"if ({condition})" [.line s!"return {status};"]

/-- A loop over indices below a bound. -/
def forEach (bound : String) (statement : String) : CodeStep :=
  block s!"for (size_t i = 0; i < {bound}; i++)" [.line statement]

def attempt (call : String) : String := s!"WIRE_TRY({call});"

/-- Refuses floats that have no encoding. -/
def floatCheck (b : Builtin) (value : String) : Code :=
  match b with
  | .float32 =>
    let limit := Double.singleLimit.scientific
    [returnIf s!"!({value} > -{limit} && {value} < {limit})" "WIRE_ERR_RANGE"]
  | .float64 => [returnIf s!"{value} != {value}" "WIRE_ERR_RANGE"]
  | _ => []

/-- Puts the bits of `*src` into `bits`. -/
def loadBits (b : Builtin) : Code :=
  match b with
  | .float32 => lines [
    "uint32_t raw;",
    "memcpy(&raw, src, sizeof raw);",
    "uint64_t bits = raw;"]
  | .float64 => lines ["uint64_t bits;", "memcpy(&bits, src, sizeof bits);"]
  | _ => lines ["uint64_t bits = (uint64_t)*src;"]

/-- Puts the value of `bits` into `*dst`. -/
def storeBits (b : Builtin) : Code :=
  match b with
  | .float32 =>
    lines ["float value;", "uint32_t raw = (uint32_t)bits;", "memcpy(&value, &raw, sizeof raw);"] ++
      floatCheck b "value" ++ lines ["*dst = value;"]
  | .float64 =>
    lines ["double value;", "memcpy(&value, &bits, sizeof bits);"] ++ floatCheck b "value" ++
      lines ["*dst = value;"]
  | _ => lines [s!"*dst = ({primitive b})bits;"]

def packBuiltin (refer : Referrer) (d : TypeDef) : Except TargetError Code := do
  let b ← d.encodedBuiltin
  return [block s!"static inline {← packSignature refer d}" (
    floatCheck b "*src" ++
    [returnIf s!"buf->capacity - buf->used < {b.byteLength}" "WIRE_ERR_BUFFER_FULL"] ++
    loadBits b ++
    [forEach (toString b.byteLength) "buf->data[buf->used++] = (uint8_t)(bits >> (8 * i));",
      .line "return WIRE_OK;"])]

def unpackBuiltin (refer : Referrer) (d : TypeDef) : Except TargetError Code := do
  let b ← d.encodedBuiltin
  return [block s!"static inline {← unpackSignature refer d}" (
    [returnIf s!"rd->len - rd->pos < {b.byteLength}" "WIRE_ERR_TRUNCATED",
      .line "uint64_t bits = 0;",
      forEach (toString b.byteLength) "bits |= (uint64_t)rd->data[rd->pos++] << (8 * i);"] ++
    storeBits b ++
    [.line "return WIRE_OK;"])]

def builtinBuilder : Builder where
  reference d := primitive <$> d.asBuiltin
  declaration := writeNothing
  pack := packBuiltin
  unpack := unpackBuiltin

def scalarBuilder : Builder where
  reference d := Scalar.name <$> d.asScalar
  declaration refer d := do
    let t ← d.asScalar
    return lines [s!"typedef {← refer t.builtin.name} {t.name};"]
  pack refer d := do
    let t ← d.asScalar
    return [block (← packSignature refer d) (lines [s!"return pack_{t.builtin.name}(buf, src);"])]
  unpack refer d := do
    let t ← d.asScalar
    return [block (← unpackSignature refer d)
      (lines [s!"return unpack_{t.builtin.name}(rd, dst);"])]

/-- The numbered constants of an enum. -/
def enumerators (typeName : String) (names : List String) : Code :=
  names.zipIdx.map fun (name, i) => .line s!"{constant typeName name} = {i},"

def enumerationBuilder : Builder where
  reference d := do return s!"enum {(← d.asEnumeration).name}"
  declaration _ d := do
    let t ← d.asEnumeration
    return [blockUntil "\x7d;" s!"enum {t.name}" (enumerators t.name t.labels)]
  pack refer d := do
    let t ← d.asEnumeration
    let tag ← refer t.tagType.name
    return [block (← packSignature refer d) [
      returnIf s!"(uint64_t)*src >= {t.labels.length}" "WIRE_ERR_INVALID_ENUM",
      .line s!"{tag} ordinal = ({tag})*src;",
      .line s!"return pack_{t.tagType.name}(buf, &ordinal);"]]
  unpack refer d := do
    let t ← d.asEnumeration
    let tag ← refer t.tagType.name
    return [block (← unpackSignature refer d) [
      .line s!"{tag} ordinal;",
      .line (attempt s!"unpack_{t.tagType.name}(rd, &ordinal)"),
      returnIf s!"ordinal >= {t.labels.length}" "WIRE_ERR_INVALID_ENUM",
      .line s!"*dst = (enum {t.name})ordinal;",
      .line "return WIRE_OK;"]]

/-- The members of a struct or union. -/
def memberLines (refer : Referrer) (fields : List Field) : Except TargetError Code :=
  fields.mapM fun f => do return .line s!"{← refer f.typeName} {member f.name};"

/-- An empty composite gets a member, because C has no empty structs. -/
def compositeBuilder : Builder where
  reference d := do return s!"struct {(← d.asComposite).name}"
  declaration refer d := do
    let t ← d.asComposite
    let members ← memberLines refer t.fields
    let body := if t.fields = [] then lines ["uint8_t empty_;"] else members
    return [blockUntil "\x7d;" s!"struct {t.name}" body]
  pack refer d := do
    let t ← d.asComposite
    let unused := if t.fields = [] then lines ["(void)buf;", "(void)src;"] else []
    let calls := t.fields.map fun f =>
      attempt s!"pack_{f.typeName}(buf, &src->{member f.name})"
    return [block (← packSignature refer d) (unused ++ lines calls ++ lines ["return WIRE_OK;"])]
  unpack refer d := do
    let t ← d.asComposite
    let calls := t.fields.map fun f =>
      attempt s!"unpack_{f.typeName}(rd, &tmp.{member f.name})"
    let body :=
      if t.fields = [] then ["(void)rd;", "dst->empty_ = 0;", "return WIRE_OK;"]
      else [s!"struct {t.name} tmp;"] ++ calls ++ ["*dst = tmp;", "return WIRE_OK;"]
    return [block (← unpackSignature refer d) (lines body)]

def fixedArrayBuilder : Builder where
  reference d := do return s!"struct {(← d.asFixedArray).name}"
  declaration refer d := do
    let t ← d.asFixedArray
    return [blockUntil "\x7d;" s!"struct {t.name}"
      (lines [s!"{← refer t.element} elems[{t.count}];"])]
  pack refer d := do
    let t ← d.asFixedArray
    return [block (← packSignature refer d) [
      forEach (toString t.count) (attempt s!"pack_{t.element}(buf, &src->elems[i])"),
      .line "return WIRE_OK;"]]
  unpack refer d := do
    let t ← d.asFixedArray
    return [block (← unpackSignature refer d) [
      .line s!"struct {t.name} tmp;",
      forEach (toString t.count) (attempt s!"unpack_{t.element}(rd, &tmp.elems[i])"),
      .line "*dst = tmp;",
      .line "return WIRE_OK;"]]

def variableArrayBuilder : Builder where
  reference d := do return s!"struct {(← d.asVariableArray).name}"
  declaration refer d := do
    let t ← d.asVariableArray
    let size ← refer t.sizeType.name
    return [blockUntil "\x7d;" s!"struct {t.name}"
      (lines [s!"{size} length;", s!"{← refer t.element} elems[{t.max}];"])]
  pack refer d := do
    let t ← d.asVariableArray
    return [block (← packSignature refer d) [
      returnIf s!"src->length > {t.max}" "WIRE_ERR_LENGTH",
      .line (attempt s!"pack_{t.sizeType.name}(buf, &src->length)"),
      forEach "src->length" (attempt s!"pack_{t.element}(buf, &src->elems[i])"),
      .line "return WIRE_OK;"]]
  unpack refer d := do
    let t ← d.asVariableArray
    return [block (← unpackSignature refer d) [
      .line s!"struct {t.name} tmp;",
      .line (attempt s!"unpack_{t.sizeType.name}(rd, &tmp.length)"),
      returnIf s!"tmp.length > {t.max}" "WIRE_ERR_LENGTH",
      forEach "tmp.length" (attempt s!"unpack_{t.element}(rd, &tmp.elems[i])"),
      .line "*dst = tmp;",
      .line "return WIRE_OK;"]]

/-- The cases of a switch over the tags of a group. -/
def cases (t : Group) (statements : Field → List String) : Code :=
  (t.variants.flatMap fun v =>
    [.line s!"case {constant (tagEnum t) v.name}:", .indented (lines (statements v))]) ++
  [.line "default:", .indented (lines ["return WIRE_ERR_INVALID_VARIANT;"])]

def groupBuilder : Builder where
  reference d := do return s!"struct {(← d.asGroup).name}"
  declaration refer d := do
    let t ← d.asGroup
    let tag ← refer t.tagType.name
    let members ← memberLines refer t.variants
    return [
      blockUntil "\x7d;" s!"enum {tagEnum t}" (enumerators (tagEnum t) (fieldNames t.variants)),
      .blank,
      blockUntil "\x7d;" s!"struct {t.name}" [
        .line s!"{tag} tag;",
        blockUntil "\x7d data;" "union" members]]
  pack refer d := do
    let t ← d.asGroup
    let packTag := attempt s!"pack_{t.tagType.name}(buf, &src->tag)"
    return [block (← packSignature refer d) [
      block "switch (src->tag)" (cases t fun v => [
        packTag,
        s!"return pack_{v.typeName}(buf, &src->data.{member v.name});"])]]
  unpack refer d := do
    let t ← d.asGroup
    return [block (← unpackSignature refer d) [
      .line s!"struct {t.name} tmp;",
      .line (attempt s!"unpack_{t.tagType.name}(rd, &tmp.tag)"),
      block "switch (tmp.tag)" (cases t fun v => [
        attempt s!"unpack_{v.typeName}(rd, &tmp.data.{member v.name})",
        "break;"]),
      .line "*dst = tmp;",
      .line "return WIRE_OK;"]]

def builder : TypeKind → Builder
  | .builtin => builtinBuilder
  | .scalar => scalarBuilder
  | .enumeration => enumerationBuilder
  | .composite => compositeBuilder
  | .fixedArray => fixedArrayBuilder
  | .variableArray => variableArrayBuilder
  | .group => groupBuilder

/-! ## Files -/

/-- What the files hold for one definition. -/
structure Section where
  declaration : Code
  prototypes : Code
  routines : Code

def renderSection (ctx : RenderContext) (d : TypeDef) : Except TargetError Section := do
  let declaration ← ctx.declaration d
  let bound := s!"#define MAX_ENCODED_LENGTH_{d.name} ({ctx.schema.maxEncodedLength d})"
  let (bounds, prototypes) ←
    if d.kind = .builtin then pure ([], [])
    else do
      let pack ← packSignature ctx.reference d
      let unpack ← unpackSignature ctx.reference d
      pure ([bound], [s!"{pack};", s!"{unpack};"])
  let pack ← ctx.pack d
  let unpack ← ctx.unpack d
  return {
    declaration := [.blank] ++ declaration ++ lines bounds
    prototypes := lines prototypes
    routines := [.blank] ++ pack ++ [.blank] ++ unpack }

/-- The macro that guards the header. -/
def guardName (project : String) : String :=
  Text.toUppercase project ++ "_H"

def banner (s : Schema) : String :=
  s!"/* Generated by bwire from schema {s.name} {s.version.text}. Do not edit. */"

def header (ctx : RenderContext) (sections : List Section) : Code :=
  let guardName := guardName ctx.project
  lines [banner ctx.schema, s!"#ifndef {guardName}", s!"#define {guardName}"] ++ [.blank] ++
  lines ["#include <stddef.h>", "#include <stdint.h>"] ++ [.blank] ++
  prelude ++
  sections.flatMap Section.declaration ++
  [.blank, .append unit (sections.flatMap Section.prototypes), .blank,
    .line s!"#endif /* {guardName} */"]

def source (ctx : RenderContext) (sections : List Section) : Code :=
  lines [banner ctx.schema, "#include <string.h>", s!"#include \"{ctx.project}.h\""] ++
  sections.flatMap Section.routines

def emit (ctx : RenderContext) : Except TargetError (List GeneratedFile) := do
  let sections ← ctx.schema.ordered.mapM (renderSection ctx)
  return [
    ⟨ctx.project ++ ".h", (Page.ofSteps unit (header ctx sections)).text⟩,
    ⟨ctx.project ++ ".c", (Page.ofSteps unit (source ctx sections)).text⟩]

def emitter : Emitter := ⟨[], check, emit⟩

def backend : Backend := ⟨language, emitter, builder⟩

end WireCodec.Target.C
