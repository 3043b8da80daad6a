import WireCodec.Text.CharLiteral

/-!
# Semantic versions

A version is `major.minor.patch`, then optionally `-` and a pre-release, then optionally `+` and
build metadata.  The numbers have no leading zero and fit in 64 bits.  Pre-release and build
metadata are dot-separated segments of ASCII letters, digits and hyphens; a numeric segment of
the pre-release has no leading zero.
-/

namespace WireCodec

/-- The places where a version can be at fault. -/
inductive Version.Part
  | major
  | minor
  | patch
  | preRelease
  | build
  deriving DecidableEq, Repr

/-- Why a text is no version. -/
inductive VersionError
  | empty
  | unexpectedEnd (part : Version.Part)
  | unexpectedChar (part : Version.Part) (found : Char)
  | unexpectedCharAfter (part : Version.Part) (found : Char)
  | leadingZero (part : Version.Part)
  | overflow (part : Version.Part)
  | emptySegment (part : Version.Part)
  deriving DecidableEq, Repr

structure Version where
  major : Nat
  minor : Nat
  patch : Nat
  preRelease : String
  build : String
  deriving DecidableEq, Repr

namespace Version

def Part.name : Part → String
  | major => "major version number"
  | minor => "minor version number"
  | patch => "patch version number"
  | preRelease => "pre-release identifier"
  | build => "build metadata"

/-- The largest number that a version may hold. -/
def maxNumber : Nat := 18446744073709551615

/-- A rest that lacks what `part` needs next. -/
def missing (part : Part) : List Char → VersionError
  | [] => .unexpectedEnd part
  | c :: _ => .unexpectedChar part c

/-- Reads the digits of a number behind those that gave `value`, digit by digit. -/
def moreDigits (part : Part) (value : Nat) : List Char → Except VersionError (Nat × List Char)
  | [] => .ok (value, [])
  | c :: cs =>
    if c.isDigit then
      let next := 10 * value + (c.toNat - '0'.toNat)
      if value = 0 then .error (.leadingZero part)
      else if maxNumber < next then .error (.overflow part)
      else moreDigits part next cs
    else .ok (value, c :: cs)

/-- Reads a number without leading zero. -/
def number (part : Part) : List Char → Except VersionError (Nat × List Char)
  | [] => .error (missing part [])
  | c :: cs =>
    if c.isDigit then moreDigits part (c.toNat - '0'.toNat) cs
    else .error (missing part (c :: cs))

/-- Reads the dot behind the number `part`. -/
def dot (part : Part) : List Char → Except VersionError (List Char)
  | [] => .error (.unexpectedEnd part)
  | '.' :: cs => .ok cs
  | c :: _ => .error (.unexpectedCharAfter part c)

/-- A character of a segment. -/
def isSegmentChar (c : Char) : Bool :=
  c.isAlphanum || c == '-'

/-- A pre-release segment of digits only that starts with an idle zero. -/
def hasLeadingZero (segment : List Char) : Bool :=
  match segment with
  | '0' :: _ :: _ => segment.all Char.isDigit
  | _ => false

/-- Reads dot-separated segments.  `segment` holds the characters of the current segment in
reverse, and `done` the ones in front of it, its dots included, in reverse. -/
def segments (part : Part) (done segment : List Char) :
    List Char → Except VersionError (List Char × List Char)
  | c :: cs =>
    if isSegmentChar c then segments part done (c :: segment) cs
    else if segment = [] then .error (.emptySegment part)
    else if part = .preRelease && hasLeadingZero segment.reverse then .error (.leadingZero part)
    else if c = '.' then segments part (c :: (segment ++ done)) [] cs
    else .ok ((segment ++ done).reverse, c :: cs)
  | [] =>
    if segment = [] then .error (.emptySegment part)
    else if part = .preRelease && hasLeadingZero segment.reverse then .error (.leadingZero part)
    else .ok ((segment ++ done).reverse, [])

/-- Reads the segments behind `mark`, if the rest starts with it.  The last component is the part
that was read last. -/
def marked (mark : Char) (part last : Part) (cs : List Char) :
    Except VersionError (List Char × List Char × Part) :=
  match cs with
  | [] => .ok ([], [], last)
  | c :: rest =>
    if c = mark then do
      let (text, rest) ← segments part [] [] rest
      .ok (text, rest, part)
    else .ok ([], c :: rest, last)

/-- Reads a whole text as a version. -/
def parse (text : String) : Except VersionError Version := do
  if text = "" then throw .empty
  let (major, rest) ← number .major text.toList
  let rest ← dot .major rest
  let (minor, rest) ← number .minor rest
  let rest ← dot .minor rest
  let (patch, rest) ← number .patch rest
  let (preRelease, rest, last) ← marked '-' .preRelease .patch rest
  let (build, rest, last) ← marked '+' .build last rest
  match rest with
  | [] => pure ⟨major, minor, patch, String.ofList preRelease, String.ofList build⟩
  | c :: _ => throw (.unexpectedCharAfter last c)

/-- The text of a version; pre-release and build metadata are written if there are any. -/
def text (v : Version) : String :=
  toString v.major ++ "." ++ toString v.minor ++ "." ++ toString v.patch ++
    (if v.preRelease = "" then "" else "-" ++ v.preRelease) ++
    (if v.build = "" then "" else "+" ++ v.build)

end Version

def VersionError.message : VersionError → String
  | empty => "empty string, expected a semver version"
  | unexpectedEnd part => s!"unexpected end of input while parsing {part.name}"
  | unexpectedChar part c =>
    s!"unexpected character {Text.charLiteral c} while parsing {part.name}"
  | unexpectedCharAfter part c => s!"unexpected character {Text.charLiteral c} after {part.name}"
  | leadingZero part => s!"invalid leading zero in {part.name}"
  | overflow part => s!"value of {part.name} exceeds u64::MAX"
  | emptySegment part => s!"empty identifier segment in {part.name}"

end WireCodec
