import WireCodec.Schema.DependencyOrder
import WireCodec.Text.Identifier

/-!
# Schemas

A schema is a named and versioned list of type definitions.  `Schema.build` accepts a list if all
names are identifiers, distinct and not those of builtins, every reference is to a builtin or to a
definition of the list, and no type contains itself.  The builtins belong to every schema.
-/

namespace WireCodec

structure Schema where
  name : String
  version : Version
  /-- The definitions as declared. -/
  declared : List TypeDef
  /-- Builtins and declared definitions, each after those it refers to. -/
  ordered : List TypeDef

namespace Schema

/-- The definitions that every schema has. -/
def builtins : List TypeDef :=
  Builtin.all.map .builtin

/-- Every definition: builtins, then declared ones. -/
def definitions (s : Schema) : List TypeDef :=
  builtins ++ s.declared

/-- The definition of that name. -/
def get? (s : Schema) (name : String) : Option TypeDef :=
  s.definitions.find? fun d => d.name = name

/-- The name of a definition is fit for a schema that already declares the names `seen`. -/
def checkName (seen : List String) (d : TypeDef) : Except SchemaError Unit := do
  if d.kind = .builtin then throw (.reservedName d.name)
  if !Text.isIdentifier d.name then throw (.invalidName d.name)
  if (Builtin.ofName? d.name).isSome then throw (.reservedName d.name)
  if d.name ∈ seen then throw (.duplicateType d.name)

/-- Checks the names of definitions one after the other. -/
def checkNames (seen : List String) : List TypeDef → Except SchemaError Unit
  | [] => .ok ()
  | d :: ds => do
    checkName seen d
    checkNames (d.name :: seen) ds

/-- Every name that a definition refers to is among `known`. -/
def checkReferences (known : List String) (defs : List TypeDef) : Except SchemaError Unit :=
  defs.forM fun d => d.references.forM fun name =>
    if name ∈ known then .ok () else .error (.unknownType name d.name)

/-- Builds a schema from definitions in declaration order. -/
def build (name version : String) (declared : List TypeDef) : Except SchemaError Schema := do
  if !Text.isIdentifier name then throw (.invalidName name)
  let parsed ← (Version.parse version).mapError (SchemaError.invalidVersion version)
  checkNames [] declared
  let defs := builtins ++ declared
  let known := defs.map TypeDef.name
  checkReferences known defs
  let order ← resolve defs.toArray fun referenced => known.findIdx? (· = referenced)
  return { name, version := parsed, declared, ordered := order.filterMap (defs.toArray[·]?) }

end Schema
end WireCodec
