import WireCodec.Proofs.Consuming
import WireCodec.Proofs.Numbers

/-!
# Reading back what was written

* `LittleEndian.lowBytes`   the low bytes of a word, cut out by shifts;
* `Item`                    what can be written: bytes, integers of up to eight bytes, and floats;
* `Item.read`               the read that matches a write;
* `Item.readBack`           what that read gives: integers are cut to their width, and all else comes
                            back unchanged;
* `Item.reads_decode`       wherever the bytes of an item come next, the matching read gives it back;
* `performAll_written`      so the bytes of any sequence of writes are read back to their end.
-/

namespace WireCodec

/-! ## Bytes of words -/

namespace LittleEndian

def lowBytes (width : Nat) (w : BitVec 64) : List UInt8 :=
  (List.range width).map fun i => ⟨(w >>> (8 * i)).setWidth 8⟩

theorem length_lowBytes (width : Nat) (w : BitVec 64) : (lowBytes width w).length = width := by
  simp [lowBytes]

theorem toBytes_eq_map (width n : Nat) :
    toBytes width n = (List.range width).map fun i => UInt8.ofNat (n / twoPow (8 * i)) := by
  induction width generalizing n with
  | zero => rfl
  | succ width ih =>
    have hfirst : n / twoPow (8 * 0) = n := Nat.div_one n
    rw [toBytes, ih, List.range_succ_eq_map, List.map_cons, List.map_map, hfirst]
    congr 1
    apply List.map_congr_left
    intro i _
    show UInt8.ofNat (n / 256 / twoPow (8 * i)) = UInt8.ofNat (n / twoPow (8 * (i + 1)))
    rw [twoPow_byte, Nat.div_div_eq_div_mul]

/-- Dividing by 256 again and again and shifting by multiples of eight give the same bytes. -/
theorem toBytes_toNat (width : Nat) (w : BitVec 64) : toBytes width w.toNat = lowBytes width w := by
  rw [toBytes_eq_map, lowBytes]
  apply List.map_congr_left
  intro i _
  apply UInt8.toNat_inj.1
  show _ = ((w >>> (8 * i)).setWidth 8).toNat
  rw [UInt8.toNat_ofNat', BitVec.toNat_setWidth, BitVec.toNat_ushiftRight, Nat.shiftRight_eq_div_pow]
  rfl

theorem toBytes_mod (width n : Nat) : toBytes width (n % twoPow (8 * width)) = toBytes width n := by
  have hback := toBytes_ofBytes (toBytes width n)
  rwa [length_toBytes, ofBytes_toBytes] at hback

theorem ofBytes_lowBytes (width : Nat) (w : BitVec 64) :
    ofBytes (lowBytes width w) = w.toNat % twoPow (8 * width) := by
  rw [← toBytes_toNat, ofBytes_toBytes]

theorem toNat_word_lowBytes {width : Nat} (hfits : width ≤ 8) (w : BitVec 64) :
    (word (lowBytes width w)).toNat = w.toNat % twoPow (8 * width) := by
  rw [toNat_word (by rw [length_lowBytes]; exact hfits), ofBytes_lowBytes]

/-- The bits of an integer below a width are those of its word. -/
theorem ofInt_toInt64 {width : Nat} (hfits : width ≤ 8) (v : Int64) :
    ofInt width v.toInt = v.toBitVec.toNat % twoPow (8 * width) := by
  have hdvd : twoPow (8 * width) ∣ twoPow 64 := Nat.pow_dvd_pow 2 (by omega)
  have hdvd : (twoPow (8 * width) : Int) ∣ (twoPow 64 : Int) := Int.natCast_dvd_natCast.2 hdvd
  -- A negative integer differs from its bits by 2 ^ 64, which the patterns of the width divide.
  apply Int.ofNat_inj.1
  calc (ofInt width v.toInt : Int)
      = Int.bmod v.toBitVec.toNat (twoPow 64) % twoPow (8 * width) := by
        rw [natCast_ofInt, ← Int64.toInt_toBitVec, BitVec.toInt_eq_toNat_bmod]
        rfl
    _ = Int.bmod v.toBitVec.toNat (twoPow 64) % twoPow 64 % twoPow (8 * width) :=
        (Int.emod_emod_of_dvd _ hdvd).symm
    _ = (v.toBitVec.toNat : Int) % twoPow (8 * width) := by
        rw [Int.bmod_emod, Int.emod_emod_of_dvd _ hdvd]
    _ = ((v.toBitVec.toNat % twoPow (8 * width) : Nat) : Int) := (Int.natCast_emod _ _).symm

/-- Sign-extending the low bytes that were read is sign-extending the word that was written. -/
theorem extended_word_lowBytes {width : Nat} (hpos : 0 < width) (hfits : width ≤ 8)
    (w : BitVec 64) :
    (extended width (word (lowBytes width w))).toInt =
      ((w.setWidth (8 * width)).signExtend 64).toInt := by
  have hwidth : 8 * width ≤ 64 := by omega
  rw [extended_eq hpos hfits, BitVec.toInt_signExtend_of_le hwidth,
    BitVec.toInt_signExtend_of_le hwidth, BitVec.toInt_setWidth, BitVec.toInt_setWidth,
    toNat_word_lowBytes hfits, Int.natCast_emod]
  exact Int.emod_bmod _ _

theorem word_lowBytes_double (bits : BitVec 64) : word (lowBytes 8 bits) = bits := by
  apply BitVec.eq_of_toNat_eq
  rw [toNat_word_lowBytes (by decide)]
  exact Nat.mod_eq_of_lt bits.isLt

theorem word_lowBytes_single (bits : BitVec 32) :
    (word (lowBytes 4 (bits.setWidth 64))).setWidth 32 = bits := by
  apply BitVec.eq_of_toNat_eq
  rw [BitVec.toNat_setWidth, toNat_word_lowBytes (by decide),
    BitVec.toNat_setWidth_of_le (by decide)]
  exact (Nat.mod_mod _ _).trans (Nat.mod_eq_of_lt bits.isLt)

end LittleEndian

/-! ## Writes and the reads that match them -/

/-- Something to write: bytes, the low bytes of a word, or a float. -/
inductive Item
  | byte (b : UInt8)
  | bytes (bytes : List UInt8)
  | uint (width : Nat) (fits : width ≤ 8) (n : UInt64)
  | int (width : Nat) (positive : 0 < width) (fits : width ≤ 8) (v : Int64)
  | single (x : Single)
  | double (x : Double)

namespace Item

open LittleEndian (lowBytes toBytes_toNat length_lowBytes toNat_word_lowBytes)

def encode : Item → Encoder Unit
  | byte b => Encoder.writeByte b
  | bytes bs => Encoder.writeBytes bs
  | uint width _ n => Encoder.writeUInt width n.toNat
  | int width _ _ v => Encoder.writeInt width v.toInt
  | single x => Encoder.writeSingle x
  | double x => Encoder.writeDouble x

def written : Item → List UInt8
  | byte b => [b]
  | bytes bs => bs
  | uint width _ n => lowBytes width n.toBitVec
  | int width _ _ v => lowBytes width v.toBitVec
  | single x => lowBytes 4 (x.bits.toBitVec.setWidth 64)
  | double x => lowBytes 8 x.bits.toBitVec

def read : Item → Read
  | byte _ => .byte
  | bytes bs => .bytes bs.length
  | uint width fits _ => .uint width fits
  | int width positive fits _ => .int width positive fits
  | single _ => .single
  | double _ => .double

/-- What comes back: of an unsigned integer its value modulo the patterns of the width, of a signed
one its low bits with the sign of the highest of them, and everything else as it was. -/
def readBack : Item → Datum
  | byte b => .byte b
  | bytes bs => .bytes bs
  | uint width _ n => .uint (n.toNat % twoPow (8 * width))
  | int width _ _ v => .int ((v.toBitVec.setWidth (8 * width)).signExtend 64).toInt
  | single x => .single x
  | double x => .double x

theorem emits_encode (item : Item) : item.encode.Emits item.written (.ok ()) := by
  cases item with
  | byte b => exact Encoder.emits_writeBytes [b]
  | bytes bs => exact Encoder.emits_writeBytes bs
  | uint width fits n =>
    show (Encoder.writeBytes _).Emits (lowBytes width n.toBitVec) _
    rw [← toBytes_toNat]
    exact Encoder.emits_writeBytes _
  | int width positive fits v =>
    show (Encoder.writeBytes _).Emits (lowBytes width v.toBitVec) _
    rw [LittleEndian.ofInt_toInt64 fits, LittleEndian.toBytes_mod, toBytes_toNat]
    exact Encoder.emits_writeBytes _
  | single x =>
    have hbits : (x.bits.toBitVec.setWidth 64).toNat = x.bits.toNat :=
      BitVec.toNat_setWidth_of_le (by decide)
    show (Encoder.writeBytes _).Emits (lowBytes 4 (x.bits.toBitVec.setWidth 64)) _
    rw [← toBytes_toNat, hbits]
    exact Encoder.emits_writeBytes _
  | double x =>
    show (Encoder.writeBytes _).Emits (lowBytes 8 x.bits.toBitVec) _
    rw [← toBytes_toNat]
    exact Encoder.emits_writeBytes _

theorem length_written (item : Item) : item.written.length = item.read.need := by
  cases item with
  | byte b => rfl
  | bytes bs => rfl
  | _ => exact length_lowBytes _ _

theorem meaning_written (item : Item) : item.read.meaning item.written = item.readBack := by
  cases item with
  | byte b => rfl
  | bytes bs => rfl
  | uint width fits n => exact congrArg Datum.uint (toNat_word_lowBytes fits _)
  | int width positive fits v =>
    exact congrArg Datum.int (LittleEndian.extended_word_lowBytes positive fits v.toBitVec)
  | single x =>
    obtain ⟨⟨bits⟩⟩ := x
    exact congrArg (fun b => Datum.single ⟨⟨b⟩⟩) (LittleEndian.word_lowBytes_single bits)
  | double x =>
    obtain ⟨⟨bits⟩⟩ := x
    exact congrArg (fun b => Datum.double ⟨⟨b⟩⟩) (LittleEndian.word_lowBytes_double bits)

/-- Wherever the bytes of an item come next, the matching read gives it back and takes no other
byte. -/
theorem reads_decode (item : Item) : item.read.decode.Reads item.written item.readBack := by
  rw [← meaning_written]
  exact Read.reads_meaning (length_written item)

end Item

/-! ## Sequences -/

theorem emits_forM_encode (items : List Item) :
    (items.forM Item.encode : Encoder Unit).Emits (items.flatMap Item.written) (.ok ()) := by
  induction items with
  | nil => exact Encoder.emits_pure
  | cons item items ih =>
    show (item.encode >>= fun _ => items.forM Item.encode).Emits _ _
    exact item.emits_encode.then ih

theorem performAll_eq_of_passes {items : List Item} {r r' : Reader}
    (h : r.Passes (items.flatMap Item.written) r') :
    performAll (items.map Item.read) r = (items.map fun item => .ok item.readBack, r') := by
  induction items generalizing r with
  | nil =>
    rw [Reader.eq_of_passes_nil h]
    rfl
  | cons item items ih =>
    rw [List.flatMap_cons] at h
    obtain ⟨mid, hfirst, hrest⟩ := h.split
    rw [List.map_cons, performAll, item.reads_decode r mid hfirst]
    show ((_ : Except WireError Datum) :: (performAll (items.map Item.read) mid).1, _) = _
    rw [ih hrest]
    rfl

/-- The bytes of any sequence of writes are read back by the reads that match: each succeeds and
gives what was written, integers cut to their width, and no byte is left. -/
theorem performAll_written (items : List Item) :
    ∃ r, Encoder.bytesOf (items.forM Item.encode) = .ok (items.flatMap Item.written) ∧
      performAll (items.map Item.read) (Reader.ofBytes (items.flatMap Item.written)) =
        (items.map fun item => .ok item.readBack, r) ∧
      r.remaining = 0 := by
  have hpasses : (Reader.ofBytes (items.flatMap Item.written)).Passes
      (items.flatMap Item.written) ⟨(items.flatMap Item.written).length, []⟩ :=
    ⟨(List.append_nil _).symm, (Nat.zero_add _).symm⟩
  refine ⟨_, ?_, performAll_eq_of_passes hpasses, rfl⟩
  exact Encoder.bytesOf_eq_of_emits (emits_forM_encode items)

end WireCodec
