import WireCodec.Proofs.Reading

/-!
# What reads consume

A reader is used for reads of several kinds, one after the other.  A read that needs more bytes than
are left is refused and changes nothing; the next one goes on from there.

* `LittleEndian.word`, `LittleEndian.extended`   bytes put together and sign-extended by shifts;
* `Read`                       the kinds of read, with the bytes they need and what bytes mean to them;
* `Read.decode_eq`             a read takes the bytes it needs, or it is refused;
* `performAll`                 reads one after the other, refused ones included;
* `performAll_within`          what any sequence of reads keeps: the reader stays within the bytes,
                               and the reads that succeeded took exactly those in front of it.
-/

namespace WireCodec

/-! ## Words -/

namespace LittleEndian

/-- A word with a byte put in at its place `i`. -/
def putByte (i : Nat) (w : BitVec 64) (b : UInt8) : BitVec 64 :=
  w ||| (b.toBitVec.setWidth 64 <<< (8 * i))

/-- Bytes put together in a word of 64 bits, the first at the lowest place. -/
def word (bytes : List UInt8) : BitVec 64 :=
  bytes.zipIdx.foldl (fun w b => putByte b.2 w b.1) 0

/-- The low `width` bytes of a word with their sign: they go to its upper end, and back by a shift
that keeps the sign. -/
def extended (width : Nat) (w : BitVec 64) : BitVec 64 :=
  (w <<< (64 - 8 * width)).sshiftRight (64 - 8 * width)

/-- A byte above those already there adds its multiple of their number. -/
theorem toNat_putByte {w : BitVec 64} {i : Nat} (hi : i < 8) (hw : w.toNat < twoPow (8 * i))
    (b : UInt8) : (putByte i w b).toNat = w.toNat + twoPow (8 * i) * b.toNat := by
  have hb : b.toNat < twoPow 8 := b.toNat_lt
  have hsplit : twoPow 64 = twoPow (8 * (7 - i)) * (twoPow 8 * twoPow (8 * i)) := by
    rw [← twoPow_add, ← twoPow_add]
    congr 1
    omega
  have hsmall : b.toNat * twoPow (8 * i) < twoPow 64 := by
    rw [hsplit]
    calc b.toNat * twoPow (8 * i) < twoPow 8 * twoPow (8 * i) :=
          Nat.mul_lt_mul_of_pos_right hb (twoPow_pos _)
      _ ≤ twoPow (8 * (7 - i)) * (twoPow 8 * twoPow (8 * i)) :=
          Nat.le_mul_of_pos_left _ (twoPow_pos _)
  have hbyte : (b.toBitVec.setWidth 64 <<< (8 * i)).toNat = b.toNat <<< (8 * i) := by
    rw [BitVec.toNat_shiftLeft, BitVec.toNat_setWidth_of_le (by decide), UInt8.toNat_toBitVec,
      Nat.shiftLeft_eq]
    exact Nat.mod_eq_of_lt hsmall
  unfold putByte
  rw [BitVec.toNat_or, hbyte, Nat.or_comm, ← Nat.shiftLeft_add_eq_or_of_lt hw, Nat.shiftLeft_eq,
    Nat.add_comm, Nat.mul_comm]
  rfl

theorem toNat_foldl_putByte {bytes : List UInt8} {w : BitVec 64} {i : Nat}
    (hlength : i + bytes.length ≤ 8) (hw : w.toNat < twoPow (8 * i)) :
    ((bytes.zipIdx i).foldl (fun w b => putByte b.2 w b.1) w).toNat =
      w.toNat + twoPow (8 * i) * ofBytes bytes := by
  induction bytes generalizing w i with
  | nil => rfl
  | cons b bytes ih =>
    rw [List.length_cons] at hlength
    have hb := b.toNat_lt
    have hstep := toNat_putByte (by omega) hw b
    have hnext : (putByte i w b).toNat < twoPow (8 * (i + 1)) := by
      have hle : twoPow (8 * i) * b.toNat ≤ twoPow (8 * i) * 255 :=
        Nat.mul_le_mul_left _ (by omega)
      rw [hstep, twoPow_byte]
      omega
    rw [List.zipIdx_cons, List.foldl_cons, ih (by omega) hnext, hstep, twoPow_byte, ofBytes,
      Nat.mul_add, Nat.add_assoc, Nat.mul_comm 256, Nat.mul_assoc]

/-- Shifting bytes into a word gives the number that they spell. -/
theorem toNat_word {bytes : List UInt8} (h : bytes.length ≤ 8) :
    (word bytes).toNat = ofBytes bytes := by
  have hzero : (0 : BitVec 64).toNat < twoPow (8 * 0) := twoPow_pos 0
  unfold word
  rw [toNat_foldl_putByte (by omega) hzero]
  show 0 + 1 * ofBytes bytes = ofBytes bytes
  omega

/-- Shifting up and back extends the sign of the low bytes. -/
theorem extended_eq {width : Nat} (hpos : 0 < width) (hfits : width ≤ 8) (w : BitVec 64) :
    extended width w = (w.setWidth (8 * width)).signExtend 64 := by
  apply BitVec.eq_of_getLsbD_eq
  intro i hi
  unfold extended
  rw [BitVec.getLsbD_sshiftRight, BitVec.getLsbD_signExtend]
  simp only [BitVec.getLsbD_shiftLeft, BitVec.getLsbD_setWidth, BitVec.msb_eq_getLsbD_last]
  -- A bit below the width comes back to its place; above it the highest of those is repeated.
  by_cases h : i < 8 * width
  · have hwithin : 64 - 8 * width + i < 64 := by omega
    have hback : 64 - 8 * width + i - (64 - 8 * width) = i := by omega
    simp [h, hi, hwithin, Nat.not_le.2 hi]
  · have hbeyond : ¬ 64 - 8 * width + i < 64 := by omega
    have hsign : 63 - (64 - 8 * width) = 8 * width - 1 := by omega
    have hinside : ¬ 63 < 64 - 8 * width := by omega
    have hlast : 8 * width - 1 < 8 * width := by omega
    simp [h, hi, hbeyond, hsign, hinside, hlast, Nat.not_le.2 hi]

theorem toInt_eq_extended {width : Nat} (hpos : 0 < width) (hfits : width ≤ 8)
    {bytes : List UInt8} (h : bytes.length = width) :
    toInt width (ofBytes bytes) = (extended width (word bytes)).toInt := by
  rw [extended_eq hpos hfits, BitVec.toInt_signExtend_of_le (by omega), BitVec.toInt_setWidth,
    toNat_word (by omega)]
  rfl

end LittleEndian

/-! ## Kinds of read -/

/-- A read of bytes, of an integer of up to eight bytes, or of a float. -/
inductive Read
  | bytes (len : Nat)
  | byte
  | uint (width : Nat) (fits : width ≤ 8)
  | int (width : Nat) (positive : 0 < width) (fits : width ≤ 8)
  | single
  | double

inductive Datum
  | bytes (bytes : List UInt8)
  | byte (b : UInt8)
  | uint (n : Nat)
  | int (v : Int)
  | single (x : Single)
  | double (x : Double)

namespace Read

open LittleEndian (word extended)

def need : Read → Nat
  | bytes len => len
  | byte => 1
  | uint width _ => width
  | int width _ _ => width
  | single => 4
  | double => 8

def decode : Read → Decoder Datum
  | bytes len => do return .bytes (← Decoder.readBytes len)
  | byte => do return .byte (← Decoder.readByte)
  | uint width _ => do return .uint (← Decoder.readUInt width)
  | int width _ _ => do return .int (← Decoder.readInt width)
  | single => do return .single (← Decoder.readSingle)
  | double => do return .double (← Decoder.readDouble)

def meaning (read : Read) (chunk : List UInt8) : Datum :=
  match read with
  | bytes _ => .bytes chunk
  | byte => .byte (chunk.headD 0)
  | uint _ _ => .uint (word chunk).toNat
  | int width _ _ => .int (extended width (word chunk)).toInt
  | single => .single ⟨⟨(word chunk).setWidth 32⟩⟩
  | double => .double ⟨⟨word chunk⟩⟩

end Read

namespace Decoder

theorem readBytes_eq (len : Nat) (r : Reader) :
    readBytes len r = if len ≤ r.remaining
      then .ok (r.unread.take len) ⟨r.index + len, r.unread.drop len⟩
      else .error (.truncatedBuffer len r.remaining) r := by
  by_cases h : len ≤ r.remaining
  · have hlength : (r.unread.take len).length = len := List.length_take_of_le h
    rw [if_pos h]
    refine readBytes_eq_ok_iff.2 ⟨hlength, (List.take_append_drop len r.unread).symm, ?_⟩
    rw [hlength]
  · rw [if_neg h]
    unfold readBytes
    cases hsplit : splitExactly? len r.unread with
    | none => rfl
    | some pair =>
      obtain ⟨hlength, hunread⟩ := splitExactly?_eq_some_iff.1 hsplit
      have hle : len ≤ r.unread.length := by
        rw [hunread, List.length_append, hlength]
        omega
      exact absurd hle h

theorem readBytes_bind_pure {α : Type} {len : Nat} {f g : List UInt8 → α}
    (h : ∀ chunk : List UInt8, chunk.length = len → f chunk = g chunk) (r : Reader) :
    (readBytes len >>= fun chunk => pure (f chunk)) r = if len ≤ r.remaining
      then .ok (g (r.unread.take len)) ⟨r.index + len, r.unread.drop len⟩
      else .error (.truncatedBuffer len r.remaining) r := by
  show EStateM.bind (readBytes len) _ r = _
  unfold EStateM.bind
  rw [readBytes_eq]
  by_cases hle : len ≤ r.remaining
  · rw [if_pos hle, if_pos hle, ← h _ (List.length_take_of_le hle)]
    rfl
  · rw [if_neg hle, if_neg hle]

end Decoder

namespace Read

open LittleEndian (word extended)

theorem meaning_byte {chunk : List UInt8} (h : chunk.length = 1) :
    Datum.byte (UInt8.ofNat (LittleEndian.ofBytes chunk)) = byte.meaning chunk := by
  obtain ⟨b, rfl⟩ := List.length_eq_one_iff.1 h
  show Datum.byte (UInt8.ofNat (b.toNat + 256 * 0)) = .byte b
  rw [Nat.mul_zero, Nat.add_zero, UInt8.ofNat_toNat]

theorem meaning_single {chunk : List UInt8} (h : chunk.length = 4) :
    Datum.single ⟨UInt32.ofNat (LittleEndian.ofBytes chunk)⟩ = single.meaning chunk := by
  rw [← LittleEndian.toNat_word (by omega)]
  rfl

theorem meaning_double {chunk : List UInt8} (h : chunk.length = 8) :
    Datum.double ⟨UInt64.ofNat (LittleEndian.ofBytes chunk)⟩ = double.meaning chunk := by
  rw [← LittleEndian.toNat_word (by omega)]
  show Datum.double ⟨⟨BitVec.ofNat 64 (word chunk).toNat⟩⟩ = _
  rw [BitVec.ofNat_toNat, BitVec.setWidth_eq]
  rfl

/-- A read takes the bytes that it needs and gives their meaning, or it is refused. -/
theorem decode_eq (read : Read) (r : Reader) :
    read.decode r = if read.need ≤ r.remaining
      then .ok (read.meaning (r.unread.take read.need))
        ⟨r.index + read.need, r.unread.drop read.need⟩
      else .error (.truncatedBuffer read.need r.remaining) r := by
  cases read with
  | bytes len => exact Decoder.readBytes_bind_pure (fun _ _ => rfl) r
  | byte =>
    simp only [decode, Decoder.readByte, bind_assoc, pure_bind]
    exact Decoder.readBytes_bind_pure (fun _ h => meaning_byte h) r
  | uint width fits =>
    simp only [decode, Decoder.readUInt, bind_assoc, pure_bind]
    refine Decoder.readBytes_bind_pure (fun chunk h => ?_) r
    exact congrArg Datum.uint (LittleEndian.toNat_word (by omega)).symm
  | int width positive fits =>
    simp only [decode, Decoder.readInt, Decoder.readUInt, bind_assoc, pure_bind]
    refine Decoder.readBytes_bind_pure (fun chunk h => ?_) r
    exact congrArg Datum.int (LittleEndian.toInt_eq_extended positive fits h)
  | single =>
    simp only [decode, Decoder.readSingle, Decoder.readUInt, bind_assoc, pure_bind]
    exact Decoder.readBytes_bind_pure (fun _ h => meaning_single h) r
  | double =>
    simp only [decode, Decoder.readDouble, Decoder.readUInt, bind_assoc, pure_bind]
    exact Decoder.readBytes_bind_pure (fun _ h => meaning_double h) r

theorem decode_eq_error_iff {read : Read} {r r' : Reader} {e : WireError} :
    read.decode r = .error e r' ↔ r.remaining < read.need ∧
      e = .truncatedBuffer read.need r.remaining ∧ r' = r := by
  rw [decode_eq]
  by_cases h : read.need ≤ r.remaining
  · rw [if_pos h]
    constructor
    · intro hr
      cases hr
    · rintro ⟨hlt, -⟩
      omega
  · rw [if_neg h]
    constructor
    · intro hr
      cases hr
      exact ⟨by omega, rfl, rfl⟩
    · rintro ⟨-, rfl, rfl⟩
      rfl

theorem reads_meaning {read : Read} {chunk : List UInt8} (h : chunk.length = read.need) :
    read.decode.Reads chunk (read.meaning chunk) := by
  rintro r ⟨index, rest⟩ ⟨hunread, hindex⟩
  have hle : read.need ≤ r.remaining := by
    show _ ≤ r.unread.length
    rw [hunread, List.length_append]
    omega
  have hindex : index = r.index + chunk.length := hindex
  have hunread : r.unread = chunk ++ rest := hunread
  rw [decode_eq, if_pos hle, hunread, ← h, List.take_left, List.drop_left, hindex]

theorem decode_eq_ok {read : Read} {r r' : Reader} {v : Datum} (h : read.decode r = .ok v r') :
    ∃ chunk, chunk.length = read.need ∧ read.meaning chunk = v ∧ r.Passes chunk r' := by
  rw [decode_eq] at h
  by_cases hle : read.need ≤ r.remaining
  · rw [if_pos hle] at h
    cases h
    have hlength : (r.unread.take read.need).length = read.need := List.length_take_of_le hle
    refine ⟨_, hlength, rfl, (List.take_append_drop _ _).symm, ?_⟩
    rw [hlength]
  · rw [if_neg hle] at h
    cases h

end Read

/-! ## Reads one after the other -/

/-- How reads end that are made one after the other, and where that leaves the reader.  A read that
is refused does not keep the next one from being made. -/
def performAll : List Read → Reader → List (Except WireError Datum) × Reader
  | [], r => ([], r)
  | read :: reads, r =>
    match read.decode r with
    | .ok v r' => (.ok v :: (performAll reads r').1, (performAll reads r').2)
    | .error e r' => (.error e :: (performAll reads r').1, (performAll reads r').2)

def succeeded : List Read → List (Except WireError Datum) → List (Read × Datum)
  | read :: reads, .ok v :: answers => (read, v) :: succeeded reads answers
  | _ :: reads, .error _ :: answers => succeeded reads answers
  | _, _ => []

def Took (success : Read × Datum) (chunk : List UInt8) : Prop :=
  chunk.length = success.1.need ∧ success.1.meaning chunk = success.2

/-- The reader moves over the bytes that were taken, and over nothing else. -/
theorem exists_chunks (reads : List Read) (r : Reader) :
    ∃ chunks, List.Forall₂ Took (succeeded reads (performAll reads r).1) chunks ∧
      r.Passes chunks.flatten (performAll reads r).2 := by
  induction reads generalizing r with
  | nil => exact ⟨[], .nil, r.passes_nil⟩
  | cons read reads ih =>
    rw [performAll]
    cases hread : read.decode r with
    | ok v r' =>
      obtain ⟨chunk, hlength, hmeaning, hpasses⟩ := Read.decode_eq_ok hread
      obtain ⟨chunks, htook, hrest⟩ := ih r'
      exact ⟨chunk :: chunks, .cons ⟨hlength, hmeaning⟩ htook, hpasses.trans hrest⟩
    | error e r' =>
      -- The refused read took nothing, so the later ones start where it did.
      obtain ⟨-, -, rfl⟩ := Read.decode_eq_error_iff.1 hread
      exact ih r'

/-- Whatever was read of a byte string, the reader is within it, what is left is what lies behind the
reader, and the reads that succeeded took the bytes in front of it, one after the other.  The next
read fails exactly if it needs more bytes than are left, and then nothing changes. -/
theorem performAll_within (data : List UInt8) (reads : List Read) :
    let run := performAll reads (Reader.ofBytes data)
    run.2.index ≤ data.length ∧ run.2.remaining = data.length - run.2.index ∧
    (∃ chunks, List.Forall₂ Took (succeeded reads run.1) chunks ∧
      chunks.flatten = data.take run.2.index) ∧
    ∀ (next : Read) (e : WireError) (r : Reader), next.decode run.2 = .error e r ↔
      run.2.remaining < next.need ∧ e = .truncatedBuffer next.need run.2.remaining ∧
        r = run.2 := by
  intro run
  obtain ⟨chunks, htook, hdata, hindex⟩ := exists_chunks reads (Reader.ofBytes data)
  have hdata : data = chunks.flatten ++ run.2.unread := hdata
  have hindex : run.2.index = chunks.flatten.length := hindex.trans (Nat.zero_add _)
  have hlength : data.length = run.2.index + run.2.remaining := by
    rw [hindex, hdata, List.length_append]
    rfl
  refine ⟨by omega, by omega, ⟨chunks, htook, ?_⟩, fun _ _ _ => Read.decode_eq_error_iff⟩
  rw [hindex, hdata, List.take_left]

end WireCodec
