import WireCodec.File.System
import WireCodec.Target.Builder

/-!
# Writing projects

The files of a project are first written to a staging directory inside the directory of the
project, and moved into place when all of them are there.  Files in the way are moved aside
first.  If a move fails, the files moved in are taken out and those moved aside are put back.
-/

namespace WireCodec.Project

open FileSystem

/-- A file that was moved into place, and where the one it replaced went. -/
structure Move where
  target : Path
  previous : Option Path
  deriving DecidableEq, Repr

/-- The staging directory; `tag` tells runs apart. -/
def stagingDir (tag : String) (dir : Path) : Path :=
  dir.join (.ofText (".bwire-staging-" ++ tag))

/-- The path of a file inside a directory. -/
def placeIn (dir : Path) (file : GeneratedFile) : Path :=
  dir.join (.ofText file.path)

section
variable {m : Type → Type} [Monad m] [MonadExceptOf FileFault m] [FileSystem m]

/-- Writes the files below a directory. -/
def stage (fresh : Path) (files : List GeneratedFile) : m Unit :=
  files.forM fun file => do
    let path := placeIn fresh file
    makeDirs path.parent
    writeFile path file.contents

/-- Moves what is at `target` to `aside`, and says whether there was anything. -/
def setAside (target aside : Path) : m (Option Path) := do
  if ← pathExists target then
    makeDirs aside.parent
    rename target aside
    return some aside
  else return none

/-- Moves staged files to their targets, up to the first that fails.  Returns the moves in
`moves` and those made, the latest first.  A move counts as made once the target is free. -/
def install (dir fresh replaced : Path) (moves : List Move) :
    List GeneratedFile → m (List Move × Except FileFault Unit)
  | [] => return (moves, .ok ())
  | file :: files => do
    let target := placeIn dir file
    let freed ← attempt do
      makeDirs target.parent
      setAside target (placeIn replaced file)
    match freed with
    | .error e => return (moves, .error e)
    | .ok previous =>
      let moves := ⟨target, previous⟩ :: moves
      match ← attempt (rename (placeIn fresh file) target) with
      | .error e => return (moves, .error e)
      | .ok _ => install dir fresh replaced moves files

/-- Takes back moves, the latest first.  What fails is passed over. -/
def rollBack (moves : List Move) : m Unit :=
  moves.forM fun move => do
    let _ ← attempt (removeFile move.target)
    match move.previous with
    | none => pure ()
    | some previous =>
      let _ ← attempt (rename previous move.target)

/-- Stages the files and moves them into place, or takes all moves back. -/
def stageAndInstall (dir staging : Path) (files : List GeneratedFile) : m Unit := do
  let fresh := staging.join (.ofText "new")
  let replaced := staging.join (.ofText "old")
  stage fresh files
  let (moves, outcome) ← install dir fresh replaced [] files
  match outcome with
  | .ok _ => pure ()
  | .error e =>
    rollBack moves
    throwThe FileFault e

/-- Makes the directory, and removes a staging directory left over from an earlier run. -/
def prepare (dir staging : Path) : m Unit := do
  makeDirs dir
  if ← pathExists staging then removeDirAll staging

/-- Writes the files below `dir` and returns their paths. -/
def write (tag : String) (dir : Path) (files : List GeneratedFile) : m (List Path) := do
  let staging := stagingDir tag dir
  prepare dir staging
  let result ← attempt (stageAndInstall dir staging files)
  let cleaned ← attempt (removeDirAll staging)
  match result, cleaned with
  | .error e, _ => throwThe FileFault e
  | .ok _, .error e => throwThe FileFault e
  | .ok _, .ok _ => return files.map (placeIn dir)

end

end WireCodec.Project
