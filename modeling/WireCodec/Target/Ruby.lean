import WireCodec.Number.FloatText
import WireCodec.Target.Names
import WireCodec.Target.Registry
import WireCodec.Text.Naming

/-!
# Ruby code

A project is one module with a runtime, a class for each builtin and a class for each type of the
schema.  A scalar is a subclass of its builtin and inherits everything.  Instances check their
values when they are made, so packing does not check again.
-/

namespace WireCodec.Target.Ruby

open Code

/-- The name by which the language is selected. -/
def language : String := "ruby"

/-- The indentation of the file. -/
def unit : String := "  "

/-- Errors, a reader of bytes and the classes that all others inherit from. -/
def runtime : List String := [
  "module Wire",
  "  class Error < StandardError; end",
  "",
  "  class RangeError < Error",
  "    def initialize(msg = \"Out of range value\")",
  "      super",
  "    end",
  "  end",
  "",
  "  class LengthError < Error",
  "    def initialize(msg = \"invalid length\")",
  "      super",
  "    end",
  "  end",
  "",
  "  class TruncatedBufferError < Error; end",
  "  class InvalidEnumerationValue < Error; end",
  "  class InvalidVariantError < Error; end",
  "  class TrailingBytesError < Error; end",
  "",
  "  class Reader",
  "    def initialize(bytes)",
  "      @bytes = bytes.b",
  "      @pos = 0",
  "    end",
  "",
  "    def take(count)",
  "      remaining = @bytes.bytesize - @pos",
  "      if count > remaining",
  "        raise TruncatedBufferError, \"Truncated buffer: needed #\x7bcount\x7d bytes but only #\x7bremaining\x7d remain\"",
  "      end",
  "      chunk = @bytes.byteslice(@pos, count)",
  "      @pos += count",
  "      chunk",
  "    end",
  "",
  "    def finish!(type)",
  "      remaining = @bytes.bytesize - @pos",
  "      raise TrailingBytesError, \"#\x7bremaining\x7d trailing bytes after #\x7btype.name\x7d\" unless remaining.zero?",
  "    end",
  "  end",
  "",
  "  class Type",
  "    def self.construct(value)",
  "      value.is_a?(self) ? value : new(value)",
  "    end",
  "",
  "    def self.unpack(bytes)",
  "      reader = Reader.new(bytes)",
  "      value = unpack_from(reader)",
  "      reader.finish!(self)",
  "      value",
  "    end",
  "",
  "    def pack",
  "      out = String.new(encoding: Encoding::BINARY)",
  "      pack_into(out)",
  "      out",
  "    end",
  "",
  "    def ==(other)",
  "      other.is_a?(self.class) && other.to_ruby == to_ruby",
  "    end",
  "    alias eql? ==",
  "",
  "    def hash",
  "      to_ruby.hash",
  "    end",
  "  end",
  "",
  "  class Builtin < Type",
  "    attr_reader :value",
  "",
  "    def self.in_range?(value)",
  "      value.is_a?(Integer) && value >= self::MIN && value <= self::MAX",
  "    end",
  "",
  "    def initialize(value)",
  "      unless self.class.in_range?(value)",
  "        raise RangeError, \"Out of range value #\x7bvalue.inspect\x7d for #\x7bself.class.name\x7d\"",
  "      end",
  "      @value = value",
  "    end",
  "",
  "    def to_ruby",
  "      @value",
  "    end",
  "  end",
  "end"]

/-! ## Names -/

/-- Methods that every composite has.  A field of that name would replace one. -/
def methodNames : List String := [
  "class", "clone", "display", "dup", "extend", "freeze", "hash", "initialize", "inspect",
  "instance_variables", "itself", "method", "methods", "object_id", "pack", "pack_into",
  "public_send", "send", "singleton_class", "tap", "then", "to_ruby", "to_s"]

/-- Class of a builtin, inside the runtime module. -/
def builtinClass : Builtin → String
  | .int8 => "Int8"
  | .int16 => "Int16"
  | .int32 => "Int32"
  | .int64 => "Int64"
  | .uint8 => "UInt8"
  | .uint16 => "UInt16"
  | .uint32 => "UInt32"
  | .uint64 => "UInt64"
  | .float32 => "Float32"
  | .float64 => "Float64"

/-- The packing directive for the little-endian encoding of a builtin. -/
def directive : Builtin → String
  | .int8 => "c"
  | .int16 => "s<"
  | .int32 => "l<"
  | .int64 => "q<"
  | .uint8 => "C"
  | .uint16 => "S<"
  | .uint32 => "L<"
  | .uint64 => "Q<"
  | .float32 => "e"
  | .float64 => "E"

/-- Field readers must not replace methods. -/
def checkDefinition (language : String) : TypeDef → Except TargetError Unit
  | .composite t =>
    checkScope language ("composite " ++ t.name) methodNames
      (t.fields.map fun f => ⟨f.name, f.name⟩)
  | _ => .ok ()

def check (ctx : RenderContext) : Except TargetError Unit := do
  let declared := ctx.schema.declared
  checkScope ctx.language "classes" ["Wire"]
    (declared.map fun d => ⟨d.name, Text.pascalCase d.name⟩)
  declared.forM (checkDefinition ctx.language)

/-! ## Classes -/

/-- A construct that ends with the word `end`. -/
def closed (head : String) (body : Code) : CodeStep :=
  .braces head "end" body

def method (signature : String) (body : Code) : CodeStep :=
  closed ("def " ++ signature) body

def packMethod (body : List String) : Code :=
  [method "pack_into(out)" (lines body)]

def unpackMethod (body : Code) : Code :=
  [method "self.unpack_from(reader)" body]

def builtinDeclaration (b : Builtin) : Code :=
  .line s!"WIDTH = {b.byteLength}" ::
  match b.intRange with
  | some (least, greatest) => lines [s!"MIN = {least}", s!"MAX = {greatest}"]
  | none =>
    if b = .float32 then
      [.line s!"LIMIT = {Double.singleLimit.scientific}",
        .blank,
        method "self.in_range?(value)"
          (lines ["value.is_a?(Numeric) && value > -LIMIT && value < LIMIT"]),
        .blank,
        method "initialize(value)" (lines [
          "super",
          s!"@value = [@value.to_f].pack(\"{directive b}\").unpack1(\"{directive b}\")"])]
    else
      [.blank,
        method "self.in_range?(value)" (lines ["value.is_a?(Numeric) && !value.to_f.nan?"]),
        .blank,
        method "initialize(value)" (lines ["super", "@value = @value.to_f"])]

def builtinBuilder : Builder where
  reference d := do return "Wire::" ++ builtinClass (← d.asBuiltin)
  declaration _ d := builtinDeclaration <$> d.encodedBuiltin
  pack _ d := do
    let b ← d.encodedBuiltin
    return packMethod [s!"out << [@value].pack(\"{directive b}\")"]
  unpack _ d := do
    let b ← d.encodedBuiltin
    return unpackMethod (lines [s!"new(reader.take(WIDTH).unpack1(\"{directive b}\"))"])

def scalarBuilder : Builder where
  reference d := do return Text.pascalCase (← d.asScalar).name
  declaration := writeNothing
  pack := writeNothing
  unpack := writeNothing

/-- Symbols, divided by commas. -/
def symbols (names : List String) : String :=
  String.intercalate ", " (names.map (":" ++ ·))

def enumerationBuilder : Builder where
  reference d := do return Text.pascalCase (← d.asEnumeration).name
  declaration _ d := do
    let t ← d.asEnumeration
    return [
      .line s!"LABELS = [{symbols t.labels}].freeze",
      .blank,
      .line "attr_reader :label",
      .blank,
      method "initialize(label)" [
        .line "label = label.to_sym if label.is_a?(String)",
        closed "unless LABELS.include?(label)" (lines [
          "raise Wire::InvalidEnumerationValue, \"Invalid enumeration value #\x7blabel.inspect\x7d for #\x7bself.class.name\x7d\""]),
        .line "@label = label"],
      .blank,
      method "ordinal" (lines ["LABELS.index(@label)"]),
      .blank,
      method "to_ruby" (lines ["@label"])]
  pack refer d := do
    let t ← d.asEnumeration
    let tag ← refer t.tagType.name
    return packMethod [s!"{tag}.new(ordinal).pack_into(out)"]
  unpack refer d := do
    let t ← d.asEnumeration
    let tag ← refer t.tagType.name
    return unpackMethod [
      .line s!"ordinal = {tag}.unpack_from(reader).value",
      closed "if ordinal >= LABELS.length" (lines [
        "raise Wire::InvalidEnumerationValue, \"Invalid enumeration value #\x7bordinal\x7d for #\x7bname\x7d\""]),
      .line "new(LABELS[ordinal])"]

/-- A hash from names to classes. -/
def classHash (refer : Referrer) (fields : List Field) : Except TargetError String := do
  let entries ← fields.mapM fun f => do return s!"{f.name}: {← refer f.typeName}"
  return "\x7b " ++ String.intercalate ", " entries ++ " \x7d"

/-- Composites are made from a hash that has every field, in any order. -/
def compositeBuilder : Builder where
  reference d := do return Text.pascalCase (← d.asComposite).name
  declaration refer d := do
    let t ← d.asComposite
    let fields ← if t.fields = [] then pure "\x7b\x7d" else classHash refer t.fields
    let readers : Code :=
      if t.fields = [] then []
      else [.blank, .line s!"attr_reader {symbols (fieldNames t.fields)}"]
    return [.line s!"FIELDS = {fields}.freeze"] ++ readers ++ [
      .blank,
      method "initialize(fields)" (lines [
        "fields = fields.transform_keys(&:to_sym)",
        "missing = FIELDS.keys - fields.keys",
        "unknown = fields.keys - FIELDS.keys",
        "raise ArgumentError, \"Missing fields #\x7bmissing.join(', ')\x7d for #\x7bself.class.name\x7d\" unless missing.empty?",
        "raise ArgumentError, \"Unknown fields #\x7bunknown.join(', ')\x7d for #\x7bself.class.name\x7d\" unless unknown.empty?",
        "FIELDS.each \x7b |name, type| instance_variable_set(\"@#\x7bname\x7d\", type.construct(fields[name])) \x7d"]),
      .blank,
      method "to_ruby" (lines [
        "FIELDS.keys.to_h \x7b |name| [name, instance_variable_get(\"@#\x7bname\x7d\").to_ruby] \x7d"])]
  pack _ d := do
    let t ← d.asComposite
    return packMethod (t.fields.map fun f => s!"@{f.name}.pack_into(out)")
  unpack refer d := do
    let t ← d.asComposite
    let reads ← t.fields.mapM fun f => do
      return s!"fields[:{f.name}] = {← refer f.typeName}.unpack_from(reader)"
    return unpackMethod (lines (["fields = \x7b\x7d"] ++ reads ++ ["new(fields)"]))

/-- What arrays of both kinds have behind their constants; `refuse` guards the number of
elements. -/
def arrayMembers (condition message : String) : Code := [
  .blank,
  .line "attr_reader :elements",
  .blank,
  method "to_ruby" (lines ["@elements.map(&:to_ruby)"]),
  .blank,
  method "initialize(elements)" [
    .line "elements = elements.bytes if elements.is_a?(String)",
    .line "elements = elements.to_a",
    closed condition (lines [message]),
    .line "@elements = elements.map \x7b |element| ELEMENT.construct(element) \x7d"]]

/-- Packs the elements of an array. -/
def packElements : String :=
  "@elements.each \x7b |element| element.pack_into(out) \x7d"

def fixedArrayBuilder : Builder where
  reference d := do return Text.pascalCase (← d.asFixedArray).name
  declaration refer d := do
    let t ← d.asFixedArray
    let element ← refer t.element
    return lines [s!"COUNT = {t.count}", s!"ELEMENT = {element}"] ++
      arrayMembers "unless elements.length == COUNT"
        "raise Wire::LengthError, \"invalid length #\x7belements.length\x7d for #\x7bself.class.name\x7d (count #\x7bCOUNT\x7d)\""
  pack _ d := do
    let _ ← d.asFixedArray
    return packMethod [packElements]
  unpack _ d := do
    let _ ← d.asFixedArray
    return unpackMethod (lines ["new(Array.new(COUNT) \x7b ELEMENT.unpack_from(reader) \x7d)"])

def variableArrayBuilder : Builder where
  reference d := do return Text.pascalCase (← d.asVariableArray).name
  declaration refer d := do
    let t ← d.asVariableArray
    let size ← refer t.sizeType.name
    let element ← refer t.element
    return lines [s!"MAX = {t.max}", s!"SIZE_TYPE = {size}", s!"ELEMENT = {element}"] ++
      arrayMembers "if elements.length > MAX"
        "raise Wire::LengthError, \"invalid length #\x7belements.length\x7d for #\x7bself.class.name\x7d (max #\x7bMAX\x7d)\""
  pack _ d := do
    let _ ← d.asVariableArray
    return packMethod ["SIZE_TYPE.new(@elements.length).pack_into(out)", packElements]
  unpack _ d := do
    let _ ← d.asVariableArray
    return unpackMethod [
      .line "length = SIZE_TYPE.unpack_from(reader).value",
      closed "if length > MAX" (lines [
        "raise Wire::LengthError, \"invalid length #\x7blength\x7d for #\x7bname\x7d (max #\x7bMAX\x7d)\""]),
      .line "new(Array.new(length) \x7b ELEMENT.unpack_from(reader) \x7d)"]

/-- Groups are made from pairs of a variant and a payload. -/
def groupBuilder : Builder where
  reference d := do return Text.pascalCase (← d.asGroup).name
  declaration refer d := do
    let t ← d.asGroup
    let variants ← classHash refer t.variants
    let tag ← refer t.tagType.name
    return [
      .line s!"VARIANTS = {variants}.freeze",
      .line s!"TAG = {tag}",
      .blank,
      .line "attr_reader :variant, :payload",
      .blank,
      method "initialize(value)" (lines [
        "variant, payload = value",
        "variant = variant.to_sym",
        "type = VARIANTS[variant]",
        "raise Wire::InvalidVariantError, \"Unknown variant #\x7bvariant.inspect\x7d for #\x7bself.class.name\x7d\" if type.nil?",
        "@variant = variant",
        "@payload = type.construct(payload)"]),
      .blank,
      method "tag" (lines ["VARIANTS.keys.index(@variant)"]),
      .blank,
      method "to_ruby" (lines ["[@variant, @payload.to_ruby]"])]
  pack _ d := do
    let _ ← d.asGroup
    return packMethod ["TAG.new(tag).pack_into(out)", "@payload.pack_into(out)"]
  unpack _ d := do
    let _ ← d.asGroup
    return unpackMethod [
      .line "tag = TAG.unpack_from(reader).value",
      closed "if tag >= VARIANTS.length" (lines [
        "raise Wire::InvalidVariantError, \"Invalid variant #\x7btag\x7d for #\x7bname\x7d\""]),
      .line "variant, type = VARIANTS.to_a[tag]",
      .line "new([variant, type.unpack_from(reader)])"]

def builder : TypeKind → Builder
  | .builtin => builtinBuilder
  | .scalar => scalarBuilder
  | .enumeration => enumerationBuilder
  | .composite => compositeBuilder
  | .fixedArray => fixedArrayBuilder
  | .variableArray => variableArrayBuilder
  | .group => groupBuilder

/-! ## Files -/

/-- The class that the class of a type inherits from. -/
def superclass (ctx : RenderContext) : TypeDef → Except TargetError String
  | .builtin _ => .ok "Wire::Builtin"
  | .scalar t => ctx.reference t.builtin.name
  | _ => .ok "Wire::Type"

/-- The parts of a class that hold a line, with empty lines between them. -/
def joinParts (parts : List Code) : Code :=
  let holdsLine (part : Code) : Bool := !(Page.ofSteps unit part).isEmpty
  ((parts.filter holdsLine).map fun part => [.append unit part]).intersperse [.blank] |>.flatten

/-- The class of a type. -/
def renderClass (ctx : RenderContext) (d : TypeDef) : Except TargetError Code := do
  let declaration ← ctx.declaration d
  let pack ← ctx.pack d
  let unpack ← ctx.unpack d
  let name ← ctx.reference d.name
  let parent ← superclass ctx d
  return [.blank, closed s!"class {name} < {parent}" (joinParts [declaration, pack, unpack])]

/-- The module that holds the runtime and the classes. -/
def source (ctx : RenderContext) (classes : List Code) : Code :=
  let s := ctx.schema
  [.line s!"# Generated by bwire from schema {s.name} {s.version.text}. Do not edit.",
    .blank,
    closed s!"module {Text.pascalCase ctx.project}" (
      lines [s!"SCHEMA_NAME = \"{s.name}\"", s!"SCHEMA_VERSION = \"{s.version.text}\""] ++
      [.blank] ++
      lines runtime ++
      classes.flatten)]

def emit (ctx : RenderContext) : Except TargetError (List GeneratedFile) := do
  let classes ← ctx.schema.ordered.mapM (renderClass ctx)
  return [⟨ctx.project ++ ".rb", (Page.ofSteps unit (source ctx classes)).text⟩]

def emitter : Emitter := ⟨["rb"], check, emit⟩

def backend : Backend := ⟨language, emitter, builder⟩

end WireCodec.Target.Ruby
