import WireCodec.Command.Basic
import WireCodec.Command.Config
import WireCodec.File.Project
import WireCodec.Schema.Description
import WireCodec.Source.Compile
import WireCodec.Target.Backends

/-!
# Running commands

A command reads the configuration, then the schema, and prints its result or one error.  Options
win over the configuration, and the configuration over the defaults.
-/

namespace WireCodec

/-- Why a command failed. -/
inductive CommandError
  | unreadableConfig (path : Path) (fault : FileFault)
  | invalidConfig (path : Path)
  | compile (error : CompileError)
  | target (error : TargetError)
  | file (fault : FileFault)
  deriving DecidableEq, Repr

def CommandError.message : CommandError → String
  | unreadableConfig path fault => s!"Failed to read {path.text}: {fault.message}"
  | invalidConfig path =>
    s!"Invalid {path.text}: only the keys schema and output_dir with string values are known"
  | compile error => error.message
  | target error => error.message
  | file fault => s!"I/O error: {fault.message}"

/-- What a run leaves behind besides files. -/
structure Outcome where
  exitCode : Nat
  out : String
  err : String
  deriving DecidableEq, Repr

namespace Command

/-- The working directory. -/
def here : Path := .ofText "."

def configPath : Path := here.join (.ofText "bwire.toml")

/-- The path from the option, else from the configuration, else the default. -/
def choosePath (option configured : Option String) (default : Path) : Path :=
  match option, configured with
  | some path, _ => here.join (.ofText path)
  | none, some path => here.join (.ofText path)
  | none, none => default

def usage : String := String.intercalate "\n" [
  "Usage: bwire generate [OPTIONS] <LANGUAGE> <PROJECT>",
  "       bwire check [OPTIONS]",
  "       bwire describe [OPTIONS]",
  "",
  "Options:",
  "  -s, --schema <SCHEMA>  Schema file",
  "  -o, --output <OUTPUT>  Output directory (generate only)",
  ""]

section
variable {m : Type → Type} [Monad m] [MonadExceptOf FileFault m] [FileSystem m]

/-- A computation on files, with its fault as the error of a command. -/
def onFiles {α : Type} (error : FileFault → CommandError) (x : m α) :
    ExceptT CommandError m α :=
  ExceptT.mk do return (← attempt x).mapError error

/-- A result that does not depend on files. -/
def pureResult {ε α : Type} (error : ε → CommandError) (x : Except ε α) :
    ExceptT CommandError m α :=
  ExceptT.mk (pure (x.mapError error))

/-- The configuration of the working directory; without a file it is empty. -/
def loadConfig : ExceptT CommandError m Config := do
  if ← onFiles .file (FileSystem.pathExists configPath) then
    let text ← onFiles (.unreadableConfig configPath) (FileSystem.readFile configPath)
    match Config.ofText? text with
    | some config => return config
    | none => throw (.invalidConfig configPath)
  else return .empty

def readSchema (config : Config) (option : Option String) : ExceptT CommandError m Schema := do
  let path := choosePath option config.schema (here.join (.ofText "schema.wire"))
  let text ← onFiles .file (FileSystem.readFile path)
  pureResult .compile (Source.compile text)

/-- Runs a command and returns the lines it prints.  `tag` names the staging directory. -/
def execute (tag : String) (c : Command) : ExceptT CommandError m (List String) := do
  let config ← loadConfig
  match c with
  | .generate name project schema output =>
    let registry ← pureResult .target Registry.withBackends
    let language ← pureResult .target (registry.language name)
    let s ← readSchema config schema
    let files ← pureResult .target (registry.generate s language project)
    let dir := choosePath output config.outputDir here
    let paths ← onFiles .file (Project.write tag dir files)
    return paths.map fun p => s!"Generated {p.text}"
  | .check schema =>
    let s ← readSchema config schema
    return [s!"Schema {s.name} {s.version.text} is valid ({s.declared.length} types)"]
  | .describe schema =>
    let s ← readSchema config schema
    return [s.descriptionText]

/-- Runs what arguments ask for. -/
def run (tag : String) (arguments : List String) : m Outcome := do
  match ofArguments? arguments with
  | none => return ⟨2, "", usage⟩
  | some c =>
    match ← (execute tag c).run with
    | .ok lines => return ⟨0, String.join (lines.map (· ++ "\n")), ""⟩
    | .error e => return ⟨1, "", s!"Error: {e.message}\n"⟩

end

end Command
end WireCodec
