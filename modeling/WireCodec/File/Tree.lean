import WireCodec.File.System

/-!
# File trees

A file system in memory: directories and regular files below a root, addressed by the names on
the way from the root.  Paths are walked from the root, segment by segment; what is above the root
cannot be reached.  Names and paths have a greatest length.  A failed operation leaves the tree as
it is, except that `makeDirs` keeps the directories that it made before it failed.
-/

namespace WireCodec

/-- The names on the way from the root to an entry. -/
abbrev Key := List String

inductive Entry
  | file (contents : String)
  | directory
  deriving DecidableEq, Repr

/-- The entries below the root, which is a directory itself. -/
structure Tree where
  entries : List (Key × Entry)
  deriving DecidableEq, Repr

namespace Tree

def empty : Tree := ⟨[]⟩

def get? (t : Tree) (k : Key) : Option Entry :=
  if k = [] then some .directory else t.entries.lookup k

def put (t : Tree) (k : Key) (e : Entry) : Tree :=
  ⟨(k, e) :: t.entries.filter fun (k', _) => k' ≠ k⟩

/-- Removes one entry. -/
def erase (t : Tree) (k : Key) : Tree :=
  ⟨t.entries.filter fun (k', _) => k' ≠ k⟩

/-- Removes an entry and all that is below it. -/
def eraseAll (t : Tree) (k : Key) : Tree :=
  ⟨t.entries.filter fun (k', _) => !k.isPrefixOf k'⟩

/-- There are entries below a directory. -/
def isOccupied (t : Tree) (k : Key) : Bool :=
  t.entries.any fun (k', _) => k.isPrefixOf k' && k' ≠ k

/-- Moves an entry with all that is below it to a place where nothing is. -/
def move (t : Tree) (source target : Key) : Tree :=
  ⟨t.entries.map fun (k, e) =>
    if source.isPrefixOf k then (target ++ k.drop source.length, e) else (k, e)⟩

/-! ## Limits -/

/-- The greatest length of a name in bytes. -/
def maxNameBytes : Nat := 255

/-- The greatest length of a path in bytes. -/
def maxPathBytes : Nat := 4095

def checkName (name : String) : Except FileFault Unit :=
  if maxNameBytes < name.utf8ByteSize then .error .nameTooLong else .ok ()

/-- What is wrong with a path whatever the tree holds; the null character comes first. -/
def checkPath (p : Path) : Except FileFault Unit :=
  if p.hasNull then .error .invalid
  else if maxPathBytes < p.text.utf8ByteSize then .error .nameTooLong
  else if p.isAbsolute then .error .notFound
  else .ok ()

/-! ## Walking -/

/-- A directory is where a walk can go on. -/
def requireDirectory (t : Tree) (k : Key) : Except FileFault Unit :=
  match t.get? k with
  | some .directory => .ok ()
  | some (.file _) => .error .notADirectory
  | none => .error .notFound

/-- Follows segments from a place.  All places but the last have to be directories. -/
def walk (t : Tree) (k : Key) : List String → Except FileFault Key
  | [] => .ok k
  | segment :: rest => do
    t.requireDirectory k
    if Path.isIdle segment then t.walk k rest
    else if segment = ".." then
      if k = [] then throw .notFound else t.walk k.dropLast rest
    else do
      checkName segment
      t.walk (k ++ [segment]) rest

/-- The place that a path leads to from the root, whether or not there is an entry. -/
def locate (t : Tree) (p : Path) : Except FileFault Key := do
  checkPath p
  t.walk [] p.segments

/-- The entry that a path leads to. -/
def find? (t : Tree) (p : Path) : Option Entry :=
  match t.locate p with
  | .ok k => t.get? k
  | .error _ => none

/-! ## Operations -/

/-- Makes a directory of a name that fits, unless there is one.  The segments `rest` follow the
name in the path; a directory that they name from inside cannot be made. -/
def makeDir (t : Tree) (k : Key) (name : String) (rest : List String) :
    Except FileFault Tree := do
  checkName name
  match t.get? (k ++ [name]) with
  | some .directory => return t
  | some (.file _) => throw .alreadyExists
  | none =>
    if Path.isInside rest then throw .notFound else return t.put (k ++ [name]) .directory

def readFile (t : Tree) (p : Path) : Except FileFault String := do
  let k ← t.locate p
  match t.get? k with
  | some (.file contents) => return contents
  | some .directory => throw .isADirectory
  | none => throw .notFound

def writeFile (t : Tree) (p : Path) (contents : String) : Except FileFault Tree := do
  let k ← t.locate p
  if !p.endsWithName || t.get? k = some .directory then throw .isADirectory
  return t.put k (.file contents)

def rename (t : Tree) (source target : Path) : Except FileFault Tree := do
  if !source.endsWithName || !target.endsWithName then throw .invalid
  let k ← t.locate source
  let k' ← t.locate target
  match t.get? k, t.get? k' with
  | none, _ => throw .notFound
  | some (.file contents), some (.file _) => return (t.erase k).put k' (.file contents)
  | some (.file contents), none => return (t.erase k).put k' (.file contents)
  | some (.file _), some .directory => throw .isADirectory
  | some .directory, some (.file _) => throw .notADirectory
  | some .directory, some .directory =>
    if k = k' then return t
    else if t.isOccupied k' then throw .notEmpty
    else if k.isPrefixOf k' then throw .invalid
    else return (t.erase k').move k k'
  | some .directory, none =>
    if k.isPrefixOf k' then throw .invalid else return t.move k k'

def removeFile (t : Tree) (p : Path) : Except FileFault Tree := do
  let k ← t.locate p
  match t.get? k with
  | some (.file _) => return t.erase k
  | some .directory => throw .isADirectory
  | none => throw .notFound

def removeDirAll (t : Tree) (p : Path) : Except FileFault Tree := do
  let k ← t.locate p
  match t.get? k with
  | some .directory => return t.eraseAll k
  | some (.file _) => throw .notADirectory
  | none => throw .notFound

/-! ## The file system of a tree -/

/-- Changes the tree, or fails and leaves it. -/
def update (f : Tree → Except FileFault Tree) : EStateM FileFault Tree Unit := fun t =>
  match f t with
  | .ok t' => .ok () t'
  | .error e => .error e t

/-- Follows segments from a directory and makes the directories that are missing. -/
def makeDirsFrom (k : Key) : List String → EStateM FileFault Tree Unit
  | [] => pure ()
  | segment :: rest =>
    if Path.isIdle segment then makeDirsFrom k rest
    else if segment = ".." then
      if k = [] then throw .notFound else makeDirsFrom k.dropLast rest
    else do
      update fun t => t.makeDir k segment rest
      makeDirsFrom (k ++ [segment]) rest

/-- Makes a directory and those above it, from the root on.  Of a path that is refused as a whole
nothing is made. -/
def makeDirs (p : Path) : EStateM FileFault Tree Unit :=
  match checkPath p with
  | .ok _ => makeDirsFrom [] p.segments
  | .error e => throw e

instance : FileSystem (EStateM FileFault Tree) where
  makeDirs := makeDirs
  pathExists p := do return ((← get).find? p).isSome
  readFile p := fun t =>
    match t.readFile p with
    | .ok contents => .ok contents t
    | .error e => .error e t
  writeFile p contents := update fun t => t.writeFile p contents
  rename source target := update fun t => t.rename source target
  removeFile p := update fun t => t.removeFile p
  removeDirAll p := update fun t => t.removeDirAll p

end Tree
end WireCodec
