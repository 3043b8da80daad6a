import WireCodec.File.Path

/-!
# File systems

What is written about files is written for any monad with these operations, so that it runs on
the files of the machine as well as on a tree in memory.  An operation that fails throws a
`FileFault`.
-/

namespace WireCodec

/-- Why an operation on files failed. -/
inductive FileFault
  | notFound
  | alreadyExists
  | notADirectory
  | isADirectory
  | notEmpty
  | nameTooLong
  | invalid
  | other (message : String)
  deriving DecidableEq, Repr

def FileFault.message : FileFault → String
  | notFound => "No such file or directory"
  | alreadyExists => "File exists"
  | notADirectory => "Not a directory"
  | isADirectory => "Is a directory"
  | notEmpty => "Directory not empty"
  | nameTooLong => "File name too long"
  | invalid => "Invalid argument"
  | other message => message

class FileSystem (m : Type → Type) where
  /-- Makes a directory and those above it; it may exist. -/
  makeDirs : Path → m Unit
  /-- There is a file or directory. -/
  pathExists : Path → m Bool
  readFile : Path → m String
  /-- Makes a file or replaces its contents. -/
  writeFile : Path → String → m Unit
  /-- Moves a file or directory; a file replaces a file, and a directory an empty one. -/
  rename : Path → Path → m Unit
  removeFile : Path → m Unit
  /-- Removes a directory with all that is in it. -/
  removeDirAll : Path → m Unit

/-- The result of a computation, or the fault that it failed with. -/
def attempt {m : Type → Type} [Monad m] [MonadExceptOf FileFault m] {α : Type} (x : m α) :
    m (Except FileFault α) :=
  tryCatchThe FileFault (Except.ok <$> x) fun e => pure (.error e)

end WireCodec
