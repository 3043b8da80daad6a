import WireCodec.Number.Binary
import WireCodec.Number.LittleEndian
import WireCodec.Wire.Error

/-!
# Reading bytes

A reader walks through a byte string.  A read that needs more bytes than are left fails and leaves
the reader where it is; what was read before a failure stays read.
-/

namespace WireCodec

/-- A place in a byte string: the number of bytes in front of it and the bytes behind it. -/
structure Reader where
  index : Nat
  unread : List UInt8
  deriving DecidableEq, Repr

/-- A computation that reads bytes.  On failure the reader stays where the failing read began. -/
abbrev Decoder := EStateM WireError Reader

/-- The first `n` entries and the rest, if there are as many. -/
def splitExactly? {α : Type} : Nat → List α → Option (List α × List α)
  | 0, xs => some ([], xs)
  | _ + 1, [] => none
  | n + 1, x :: xs =>
    match splitExactly? n xs with
    | some (taken, rest) => some (x :: taken, rest)
    | none => none

namespace Reader

/-- The start of a byte string. -/
def ofBytes (bytes : List UInt8) : Reader :=
  ⟨0, bytes⟩

/-- The number of bytes that are left. -/
def remaining (r : Reader) : Nat :=
  r.unread.length

end Reader

namespace Decoder

/-- Reads nothing and fails as the check does. -/
def require (check : Except WireError Unit) : Decoder Unit :=
  match check with
  | .ok _ => pure ()
  | .error e => throw e

def readBytes (len : Nat) : Decoder (List UInt8) := fun r =>
  match splitExactly? len r.unread with
  | some (bytes, rest) => .ok bytes ⟨r.index + len, rest⟩
  | none => .error (.truncatedBuffer len r.remaining) r

def readByte : Decoder UInt8 := do
  return UInt8.ofNat (LittleEndian.ofBytes (← readBytes 1))

/-- An unsigned integer of `width` bytes. -/
def readUInt (width : Nat) : Decoder Nat := do
  return LittleEndian.ofBytes (← readBytes width)

/-- An integer of `width` bytes in two's complement. -/
def readInt (width : Nat) : Decoder Int := do
  return LittleEndian.toInt width (← readUInt width)

def readSingle : Decoder Single := do
  return ⟨UInt32.ofNat (← readUInt 4)⟩

def readDouble : Decoder Double := do
  return ⟨UInt64.ofNat (← readUInt 8)⟩

section
variable {α : Type}

/-- Reads `count` entries one after the other, behind those in `done`, the latest first. -/
def repeatedAfter (done : List α) (decode : Decoder α) : Nat → Decoder (List α)
  | 0 => pure done.reverse
  | count + 1 => do
    let x ← decode
    repeatedAfter (x :: done) decode count

/-- Reads `count` entries one after the other. -/
def repeated (count : Nat) (decode : Decoder α) : Decoder (List α) :=
  repeatedAfter [] decode count

theorem length_repeatedAfter {decode : Decoder α} {count : Nat} {done xs : List α}
    {r r' : Reader} (h : repeatedAfter done decode count r = .ok xs r') :
    xs.length = done.length + count := by
  induction count generalizing done r with
  | zero =>
    simp only [repeatedAfter, pure, EStateM.pure, EStateM.Result.ok.injEq] at h
    simp [← h.1]
  | succ count ih =>
    simp only [repeatedAfter, bind, EStateM.bind] at h
    split at h
    · simpa [Nat.add_assoc, Nat.add_comm 1] using ih h
    · simp at h

theorem length_repeated {decode : Decoder α} {count : Nat} {xs : List α} {r r' : Reader}
    (h : repeated count decode r = .ok xs r') : xs.length = count := by
  simpa using length_repeatedAfter h

/-- Reads `count` entries and knows their number. -/
def exactly (count : Nat) (decode : Decoder α) : Decoder { xs : List α // xs.length = count } :=
  fun r =>
    match h : repeated count decode r with
    | .ok xs r => .ok ⟨xs, length_repeated h⟩ r
    | .error e r => .error e r

end

/-- The result of reading a whole byte string; bytes that are left are a fault of the type
`typeName`. -/
def readAll {α : Type} (typeName : String) (decode : Decoder α) (bytes : List UInt8) :
    Except WireError α :=
  match decode (Reader.ofBytes bytes) with
  | .error e _ => .error e
  | .ok value r =>
    if r.remaining = 0 then .ok value else .error (.trailingBytes typeName r.remaining)

end Decoder
end WireCodec
