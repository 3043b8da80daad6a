import WireCodec.Command.Run

/-!
# The command line

Commands run on the files of the machine.
-/

namespace WireCodec

/-- An action on the files at some paths, with its failure as a fault. -/
def onDisk {α : Type} (paths : List Path) (action : IO α) : EIO FileFault α :=
  if paths.any Path.hasNull then throw .invalid
  else action.toEIO fun e => .other (toString e)

/-- The text of a path; the empty path is the working directory. -/
def diskText (p : Path) : String :=
  if p.text = "" then "." else p.text

/-- There is a directory at a path. -/
def isDirOnDisk (p : Path) : BaseIO Bool := do
  match ← (IO.FS.realPath (diskText p ++ "/.")).toBaseIO with
  | .ok _ => return true
  | .error _ => return false

/-- Makes a directory unless there is one. -/
def makeDirOnDisk (p : Path) : IO Unit := do
  match ← (IO.FS.createDir (diskText p)).toBaseIO with
  | .ok _ => pure ()
  | .error e => unless ← isDirOnDisk p do throw e

/-- Makes the directory `p`.  If there is no place for it, those `above` it are made first, of
which the nearest comes first. -/
def makeDirsOnDisk (p : Path) (above : List Path) : IO Unit := do
  match ← (makeDirOnDisk p).toBaseIO with
  | .ok _ => pure ()
  | .error (.noFileOrDirectory ..) =>
    match above with
    | [] => pure ()
    | q :: above => makeDirsOnDisk q above
    makeDirOnDisk p
  | .error e => throw e

instance : FileSystem (EIO FileFault) where
  makeDirs p := onDisk [p] (makeDirsOnDisk p p.stems.dropLast.reverse)
  pathExists p := do
    match ← (onDisk [p] (IO.FS.realPath p.text)).toBaseIO with
    | .ok _ => return true
    | .error _ => return false
  readFile p := onDisk [p] (IO.FS.readFile p.text)
  writeFile p contents := onDisk [p] (IO.FS.writeFile p.text contents)
  rename source target := onDisk [source, target] (IO.FS.rename source.text target.text)
  removeFile p := onDisk [p] (IO.FS.removeFile p.text)
  removeDirAll p := onDisk [p] (IO.FS.removeDirAll p.text)

end WireCodec

open WireCodec in
def main (arguments : List String) : IO UInt32 := do
  let tag := toString (← IO.monoNanosNow)
  let outcome ← (Command.run tag arguments : EIO FileFault Outcome).toIO
    fun fault => IO.userError fault.message
  IO.print outcome.out
  IO.eprint outcome.err
  return UInt32.ofNat outcome.exitCode
