/-!
# Commands

What the command line asks for.  Options are written `--schema X`, `--schema=X`, `-s X`, `-sX` or
`-s=X`, anywhere behind the name of the command; `--` ends them.  An option is given at most once
and its value is not empty.
-/

namespace WireCodec

inductive Command
  | generate (language project : String) (schema output : Option String)
  | check (schema : Option String)
  | describe (schema : Option String)
  deriving DecidableEq, Repr

namespace Command

inductive Flag
  | schema
  | output
  deriving DecidableEq, Repr

def Flag.longName : Flag → String
  | schema => "schema"
  | output => "output"

def Flag.shortName : Flag → Char
  | schema => 's'
  | output => 'o'

/-- What one argument is on its own. -/
inductive Argument
  | operand
  /-- An option with its value. -/
  | complete (flag : Flag) (value : String)
  /-- An option whose value is the next argument. -/
  | incomplete (flag : Flag)
  | unknown
  deriving DecidableEq, Repr

/-- Whether an argument starts like an option; a single hyphen does not. -/
def isHyphenated (argument : String) : Bool :=
  match argument.toList with
  | '-' :: _ :: _ => true
  | _ => false

/-- The flag of an option, and what stands behind it: nothing, or a value. -/
def withValue (flag : Option Flag) (behind : Option (List Char)) : Argument :=
  match flag, behind with
  | none, _ => .unknown
  | some flag, none => .incomplete flag
  | some flag, some value => .complete flag (String.ofList value)

/-- The value behind the name of a long option. -/
def longValue : List Char → Option (List Char)
  | [] => none
  | _ :: value => some value

/-- The value behind the letter of a short option. -/
def shortValue : List Char → Option (List Char)
  | [] => none
  | '=' :: value => some value
  | value => some value

/-- Classifies an argument of a command with these flags. -/
def Argument.ofText (flags : List Flag) (argument : String) : Argument :=
  match argument.toList with
  | '-' :: '-' :: cs =>
    let name := cs.takeWhile (· ≠ '=')
    withValue (flags.find? fun f => f.longName.toList = name) (longValue (cs.drop name.length))
  | '-' :: c :: cs => withValue (flags.find? fun f => f.shortName = c) (shortValue cs)
  | _ => .operand

/-- The arguments of a command, sorted out. -/
structure Given where
  operands : List String
  schema : Option String
  output : Option String
  deriving DecidableEq, Repr

/-- Sets an option that was not given before. -/
def Given.set? (g : Given) (flag : Flag) (value : String) : Option Given :=
  if value = "" then none
  else
    match flag with
    | .schema => if g.schema.isSome then none else some { g with schema := some value }
    | .output => if g.output.isSome then none else some { g with output := some value }

/-- Sorts out the arguments of a command with these flags. -/
def sortOut (flags : List Flag) (g : Given) : List String → Option Given
  | [] => some g
  | "--" :: rest => some { g with operands := g.operands ++ rest }
  | argument :: rest =>
    match Argument.ofText flags argument with
    | .unknown => none
    | .operand => sortOut flags { g with operands := g.operands ++ [argument] } rest
    | .complete flag value =>
      match g.set? flag value with
      | none => none
      | some g => sortOut flags g rest
    | .incomplete flag =>
      match rest with
      | [] => none
      | value :: rest =>
        if isHyphenated value then none
        else
          match g.set? flag value with
          | none => none
          | some g => sortOut flags g rest

/-- The command that arguments ask for, if they are well formed. -/
def ofArguments? : List String → Option Command
  | "generate" :: rest => do
    let g ← sortOut [.schema, .output] ⟨[], none, none⟩ rest
    match g.operands with
    | [language, project] => some (.generate language project g.schema g.output)
    | _ => none
  | "check" :: rest => do
    let g ← sortOut [.schema] ⟨[], none, none⟩ rest
    if g.operands = [] then some (.check g.schema) else none
  | "describe" :: rest => do
    let g ← sortOut [.schema] ⟨[], none, none⟩ rest
    if g.operands = [] then some (.describe g.schema) else none
  | _ => none

end Command
end WireCodec
