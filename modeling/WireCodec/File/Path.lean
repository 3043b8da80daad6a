import WireCodec.Text.Naming

/-!
# Paths

A path is a list of segments with slashes between them.  Paths are joined as they are written:
nothing is resolved or simplified, so that a path is shown the way it was put together.
-/

namespace WireCodec

structure Path where
  segments : List String
  deriving DecidableEq, Repr

namespace Path

def ofText (text : String) : Path :=
  ⟨(Text.splitAt '/' text.toList).map String.ofList⟩

def text (p : Path) : String :=
  String.intercalate "/" p.segments

/-- The path starts with a slash. -/
def isAbsolute (p : Path) : Bool :=
  match p.segments with
  | "" :: _ :: _ => true
  | _ => false

/-- The segments without one empty segment at the end, which stands for a slash there. -/
def dropSlash (segments : List String) : List String :=
  if segments.getLast? = some "" then segments.dropLast else segments

/-- The second path as seen from the first.  An absolute path is the same from everywhere. -/
def join (p q : Path) : Path :=
  if q.isAbsolute then q else ⟨dropSlash p.segments ++ q.segments⟩

/-- Segments that stay where they are. -/
def isIdle (segment : String) : Bool :=
  segment = "" || segment = "."

/-- The segments stay where they are and say so, as those behind the name in `out/.` do.  They name
a directory from inside, so that it has to be there; slashes alone do not. -/
def isInside (segments : List String) : Bool :=
  segments.all isIdle && segments.contains "."

/-- The paths that end with a segment of `rest` which is not idle, behind the segments `done`. -/
def stemsAfter (done : List String) : (rest : List String) → List Path
  | [] => []
  | segment :: rest =>
    let done := done ++ [segment]
    if isIdle segment then stemsAfter done rest else ⟨done⟩ :: stemsAfter done rest

/-- The path up to each of its segments that are not idle. -/
def stems (p : Path) : List Path :=
  stemsAfter [] p.segments

/-- The path without its last segment that is not idle. -/
def parent (p : Path) : Path :=
  p.stems.dropLast.getLast?.getD ⟨[]⟩

/-- The path ends with the name of an entry. -/
def endsWithName (p : Path) : Bool :=
  match p.segments.getLast? with
  | none => false
  | some segment => !isIdle segment && segment != ".."

/-- The path holds the null character, which no file system takes. -/
def hasNull (p : Path) : Bool :=
  p.segments.any fun segment => segment.toList.any fun c => c.toNat = 0

end Path
end WireCodec
