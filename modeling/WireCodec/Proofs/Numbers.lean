import WireCodec.Proofs.Arrangement
import WireCodec.Proofs.Reading
import WireCodec.Proofs.Widening
import WireCodec.Proofs.Writing
import WireCodec.Value.Unpack

/-!
# Numbers on the wire

* `LittleEndian.toInt_ofInt`, `LittleEndian.ofInt_toInt`   two's complement and back;
* `Builtin.Encodes b v bytes`   the bytes of a number, by kind: signed, unsigned, single, double;
* `bytesOf_packNumber`          these are the bytes that are written;
* `reads_unpackNumber`          reading them gives the number, if it has the precision of its type;
* `unpackNumber_eq_ok`          what was read is written as the bytes it was read from.
-/

namespace WireCodec

namespace LittleEndian

theorem ofInt_lt (width : Nat) (v : Int) : ofInt width v < twoPow (8 * width) := by
  have hpos := twoPow_pos (8 * width)
  unfold ofInt
  have hlt := Int.emod_lt_of_pos v (show (0 : Int) < twoPow (8 * width) by omega)
  omega

theorem natCast_ofInt (width : Nat) (v : Int) :
    ((ofInt width v : Nat) : Int) = v % twoPow (8 * width) := by
  have hpos := twoPow_pos (8 * width)
  exact Int.toNat_of_nonneg (Int.emod_nonneg v (by omega))

/-- A natural number that fits is its own two's complement. -/
theorem ofInt_natCast {width n : Nat} (h : n < twoPow (8 * width)) : ofInt width n = n := by
  have hmod : ((n : Int) % twoPow (8 * width)) = n :=
    Int.emod_eq_of_lt (Int.natCast_nonneg n) (by omega)
  unfold ofInt
  rw [hmod, Int.toNat_natCast]

/-- The patterns of a width are twice as many as its non-negative integers. -/
theorem twoPow_width {width : Nat} (h : 0 < width) :
    twoPow (8 * width) = 2 * twoPow (8 * width - 1) := by
  rw [← twoPow_succ]
  congr 1
  omega

theorem toInt_ofInt {width : Nat} {v : Int} (hwidth : 0 < width)
    (hlow : -(twoPow (8 * width - 1) : Int) ≤ v) (hhigh : v < twoPow (8 * width - 1)) :
    toInt width (ofInt width v) = v := by
  unfold toInt
  rw [natCast_ofInt, Int.emod_bmod]
  have hdouble := twoPow_width hwidth
  apply Int.bmod_eq_of_le
  · omega
  · omega

theorem ofInt_toInt {width n : Nat} (h : n < twoPow (8 * width)) :
    ofInt width (toInt width n) = n := by
  unfold ofInt toInt
  rw [Int.bmod_emod, Int.emod_eq_of_lt (Int.natCast_nonneg n) (by omega), Int.toNat_natCast]

theorem toInt_bounds {width : Nat} (hwidth : 0 < width) (n : Nat) :
    -(twoPow (8 * width - 1) : Int) ≤ toInt width n ∧ toInt width n < twoPow (8 * width - 1) := by
  have hpos := twoPow_pos (8 * width)
  have hdouble := twoPow_width hwidth
  have hlow := Int.le_bmod (x := (n : Int)) hpos
  have hhigh := Int.bmod_lt (x := (n : Int)) hpos
  unfold toInt
  omega

end LittleEndian

theorem Builtin.byteLength_pos (b : Builtin) : 0 < b.byteLength := by
  cases b <;> decide

/-- The bytes of a number, by the kind of its builtin. -/
inductive Builtin.Encodes : Builtin → Value → List UInt8 → Prop
  | signed {b : Builtin} {n : Int} (kind : b.numeric = .signed)
      (low : -(twoPow (8 * b.byteLength - 1) : Int) ≤ n)
      (high : n < twoPow (8 * b.byteLength - 1)) :
      Encodes b (.integer n)
        (LittleEndian.toBytes b.byteLength (LittleEndian.ofInt b.byteLength n))
  | unsigned {b : Builtin} {n : Nat} (kind : b.numeric = .unsigned)
      (fits : n < twoPow (8 * b.byteLength)) :
      Encodes b (.integer n) (LittleEndian.toBytes b.byteLength n)
  | single {x : Double} (within : x.withinSingle = true) :
      Encodes .float32 (.float x) (LittleEndian.toBytes 4 x.toSingle.bits.toNat)
  | double {x : Double} (number : x.isNaN = false) :
      Encodes .float64 (.float x) (LittleEndian.toBytes 8 x.bits.toNat)

/-! ## Writing -/

theorem checkSingle_eq_ok_iff {typeName : String} {x : Double} :
    checkSingle typeName x = .ok () ↔ x.withinSingle = true := by
  unfold checkSingle
  cases x.withinSingle <;> simp

theorem checkDouble_eq_ok_iff {typeName : String} {x : Double} :
    checkDouble typeName x = .ok () ↔ x.isNaN = false := by
  unfold checkDouble
  cases x.isNaN <;> simp

theorem packNumber_signed {typeName : String} {b : Builtin} {n : Int} (h : b.numeric = .signed) :
    packNumber typeName b (.integer n) = packInteger typeName b.byteLength
      (-(twoPow (8 * b.byteLength - 1) : Int), (twoPow (8 * b.byteLength - 1) : Int) - 1) n := by
  unfold packNumber Builtin.intRange
  rw [h]

theorem packNumber_unsigned {typeName : String} {b : Builtin} {n : Int}
    (h : b.numeric = .unsigned) :
    packNumber typeName b (.integer n) = packInteger typeName b.byteLength
      (0, (twoPow (8 * b.byteLength) : Int) - 1) n := by
  unfold packNumber Builtin.intRange
  rw [h]

theorem packNumber_mismatch_integer {typeName : String} {b : Builtin} {n : Int}
    (h : b.numeric = .float) :
    packNumber typeName b (.integer n) = throw (.typeMismatch typeName .integer) := by
  unfold packNumber Builtin.intRange
  rw [h]
  rfl

theorem packNumber_single (typeName : String) (x : Double) :
    packNumber typeName .float32 (.float x) =
      (Encoder.require (checkSingle typeName x) >>= fun _ =>
        Encoder.writeUInt 4 x.toSingle.bits.toNat) :=
  rfl

theorem packNumber_double (typeName : String) (x : Double) :
    packNumber typeName .float64 (.float x) =
      (Encoder.require (checkDouble typeName x) >>= fun _ => Encoder.writeUInt 8 x.bits.toNat) :=
  rfl

theorem bytesOf_packInteger {typeName : String} {width : Nat} {low high v : Int}
    {bytes : List UInt8} :
    Encoder.bytesOf (packInteger typeName width (low, high) v) = .ok bytes ↔
      (low ≤ v ∧ v ≤ high) ∧
        bytes = LittleEndian.toBytes width (LittleEndian.ofInt width v) := by
  unfold packInteger
  by_cases hrange : low ≤ v ∧ v ≤ high
  · rw [if_pos hrange]
    unfold Encoder.writeInt
    rw [Encoder.bytesOf_writeUInt]
    refine ⟨?_, ?_⟩
    · intro h
      cases h
      exact ⟨hrange, rfl⟩
    · intro hr
      obtain ⟨-, rfl⟩ := hr
      rfl
  · rw [if_neg hrange, Encoder.bytesOf_throw]
    refine ⟨(fun h => nomatch h), ?_⟩
    intro hr
    obtain ⟨h, -⟩ := hr
    exact absurd h hrange

theorem bytesOf_packNumber {typeName : String} {b : Builtin} {v : Value} {bytes : List UInt8} :
    Encoder.bytesOf (packNumber typeName b v) = .ok bytes ↔ b.Encodes v bytes := by
  refine ⟨?_, ?_⟩
  · intro h
    cases v with
    | integer n =>
      cases hkind : b.numeric with
      | signed =>
        rw [packNumber_signed hkind, bytesOf_packInteger] at h
        obtain ⟨⟨hlow, hhigh⟩, rfl⟩ := h
        exact .signed hkind hlow (by omega)
      | unsigned =>
        rw [packNumber_unsigned hkind, bytesOf_packInteger] at h
        obtain ⟨⟨hlow, hhigh⟩, rfl⟩ := h
        obtain ⟨n, rfl⟩ := Int.eq_ofNat_of_zero_le hlow
        have hfits : n < twoPow (8 * b.byteLength) := by omega
        rw [LittleEndian.ofInt_natCast hfits]
        exact .unsigned hkind hfits
      | float =>
        rw [packNumber_mismatch_integer hkind, Encoder.bytesOf_throw] at h
        cases h
    | float x =>
      cases b with
      | float32 =>
        rw [packNumber_single, Encoder.bytesOf_require_then (Encoder.appends_writeUInt _ _),
          checkSingle_eq_ok_iff] at h
        obtain ⟨hwithin, hbytes⟩ := h
        cases hbytes
        exact .single hwithin
      | float64 =>
        rw [packNumber_double, Encoder.bytesOf_require_then (Encoder.appends_writeUInt _ _),
          checkDouble_eq_ok_iff] at h
        obtain ⟨hnumber, hbytes⟩ := h
        cases hbytes
        exact .double hnumber
      | _ => cases h
    | _ => cases b <;> cases h
  · intro h
    cases h with
    | signed hkind hlow hhigh =>
      rw [packNumber_signed hkind, bytesOf_packInteger]
      exact ⟨⟨hlow, by omega⟩, rfl⟩
    | @unsigned b n hkind hfits =>
      rw [packNumber_unsigned hkind, bytesOf_packInteger, LittleEndian.ofInt_natCast hfits]
      exact ⟨⟨Int.natCast_nonneg n, by omega⟩, rfl⟩
    | single hwithin =>
      rw [packNumber_single, Encoder.bytesOf_require_then (Encoder.appends_writeUInt _ _)]
      exact ⟨checkSingle_eq_ok_iff.2 hwithin, Encoder.bytesOf_writeUInt _ _⟩
    | double hnumber =>
      rw [packNumber_double, Encoder.bytesOf_require_then (Encoder.appends_writeUInt _ _)]
      exact ⟨checkDouble_eq_ok_iff.2 hnumber, Encoder.bytesOf_writeUInt _ _⟩

/-! ## Reading -/

theorem unpackNumber_signed {typeName : String} {b : Builtin} (h : b.numeric = .signed) :
    unpackNumber typeName b = (Decoder.readUInt b.byteLength >>= fun n =>
      pure (.integer (LittleEndian.toInt b.byteLength n))) := by
  unfold unpackNumber Decoder.readInt
  rw [h]
  simp only [bind_assoc, pure_bind]

theorem unpackNumber_unsigned {typeName : String} {b : Builtin} (h : b.numeric = .unsigned) :
    unpackNumber typeName b = (Decoder.readUInt b.byteLength >>= fun n =>
      pure (.integer n)) := by
  unfold unpackNumber
  rw [h]

theorem unpackNumber_single (typeName : String) :
    unpackNumber typeName .float32 = (Decoder.readUInt 4 >>= fun n =>
      Decoder.require (checkSingle typeName (Single.toDouble ⟨UInt32.ofNat n⟩)) >>= fun _ =>
        pure (.float (Single.toDouble ⟨UInt32.ofNat n⟩))) := by
  show (Decoder.readSingle >>= fun x => _) = _
  unfold Decoder.readSingle
  simp only [bind_assoc, pure_bind]

theorem unpackNumber_double (typeName : String) :
    unpackNumber typeName .float64 = (Decoder.readUInt 8 >>= fun n =>
      Decoder.require (checkDouble typeName ⟨UInt64.ofNat n⟩) >>= fun _ =>
        pure (.float ⟨UInt64.ofNat n⟩)) := by
  show (Decoder.readDouble >>= fun x => _) = _
  unfold Decoder.readDouble
  simp only [bind_assoc, pure_bind]

theorem reads_checked (width n : Nat) (check : Nat → Except WireError Unit) (f : Nat → Value)
    (hfits : n < twoPow (8 * width)) (hcheck : check n = .ok ()) :
    (Decoder.readUInt width >>= fun n => Decoder.require (check n) >>= fun _ =>
      pure (f n)).Reads (LittleEndian.toBytes width n) (f n) := by
  rw [← List.append_nil (LittleEndian.toBytes width n)]
  refine (Decoder.reads_readUInt hfits).bind ?_
  exact (Decoder.reads_require hcheck).bind (Decoder.reads_pure (f n))

theorem reads_unpackNumber {typeName : String} {b : Builtin} {v : Value} {bytes : List UInt8}
    (h : b.Encodes v bytes) (hprecise : (Layout.number typeName b).isSinglePrecise v = true) :
    (unpackNumber typeName b).Reads bytes v := by
  cases h with
  | @signed b n hkind hlow hhigh =>
    have hread := (Decoder.reads_readUInt (LittleEndian.ofInt_lt b.byteLength n)).bind_pure
      (f := fun n => Value.integer (LittleEndian.toInt b.byteLength n))
    rw [LittleEndian.toInt_ofInt b.byteLength_pos hlow hhigh] at hread
    rw [unpackNumber_signed hkind]
    exact hread
  | @unsigned b n hkind hfits =>
    rw [unpackNumber_unsigned hkind]
    exact (Decoder.reads_readUInt hfits).bind_pure
  | @single x hwithin =>
    have hprecise : x.toSingle.toDouble = x := of_decide_eq_true hprecise
    have hbits : (⟨UInt32.ofNat x.toSingle.bits.toNat⟩ : Single) = x.toSingle :=
      congrArg Single.mk (UInt32.ofNat_toNat)
    have hread := reads_checked 4 x.toSingle.bits.toNat
      (fun n => checkSingle typeName (Single.toDouble ⟨UInt32.ofNat n⟩))
      (fun n => .float (Single.toDouble ⟨UInt32.ofNat n⟩)) x.toSingle.bits.toNat_lt
    rw [hbits, hprecise] at hread
    rw [unpackNumber_single]
    exact hread (checkSingle_eq_ok_iff.2 hwithin)
  | @double x hnumber =>
    have hbits : (⟨UInt64.ofNat x.bits.toNat⟩ : Double) = x :=
      congrArg Double.mk UInt64.ofNat_toNat
    have hread := reads_checked 8 x.bits.toNat
      (fun n => checkDouble typeName ⟨UInt64.ofNat n⟩) (fun n => .float ⟨UInt64.ofNat n⟩)
      x.bits.toNat_lt
    rw [hbits] at hread
    rw [unpackNumber_double]
    exact hread (checkDouble_eq_ok_iff.2 hnumber)

/-- What is read as a number is written as the bytes that were read. -/
theorem unpackNumber_eq_ok {typeName : String} {b : Builtin} {v : Value} {r r' : Reader}
    (h : unpackNumber typeName b r = .ok v r') :
    ∃ bytes, r.Passes bytes r' ∧ b.Encodes v bytes ∧
      (Layout.number typeName b).isSinglePrecise v = true := by
  cases hkind : b.numeric with
  | signed =>
    rw [unpackNumber_signed hkind] at h
    obtain ⟨n, mid, hread, hpure⟩ := Decoder.bind_eq_ok_iff.1 h
    obtain ⟨rfl, rfl⟩ := Decoder.pure_eq_ok_iff.1 hpure
    obtain ⟨hfits, hpasses⟩ := Decoder.readUInt_eq_ok hread
    obtain ⟨hlow, hhigh⟩ := LittleEndian.toInt_bounds b.byteLength_pos n
    have hencodes := Builtin.Encodes.signed hkind hlow hhigh
    rw [LittleEndian.ofInt_toInt hfits] at hencodes
    exact ⟨_, hpasses, hencodes, by cases b <;> rfl⟩
  | unsigned =>
    rw [unpackNumber_unsigned hkind] at h
    obtain ⟨n, mid, hread, hpure⟩ := Decoder.bind_eq_ok_iff.1 h
    obtain ⟨rfl, rfl⟩ := Decoder.pure_eq_ok_iff.1 hpure
    obtain ⟨hfits, hpasses⟩ := Decoder.readUInt_eq_ok hread
    exact ⟨_, hpasses, .unsigned hkind hfits, by cases b <;> rfl⟩
  | float =>
    cases b with
    | float32 =>
      rw [unpackNumber_single] at h
      obtain ⟨n, mid, hread, hrest⟩ := Decoder.bind_eq_ok_iff.1 h
      obtain ⟨u, mid', hrequire, hpure⟩ := Decoder.bind_eq_ok_iff.1 hrest
      obtain ⟨hcheck, rfl⟩ := Decoder.require_eq_ok_iff.1 hrequire
      obtain ⟨rfl, rfl⟩ := Decoder.pure_eq_ok_iff.1 hpure
      obtain ⟨hfits, hpasses⟩ := Decoder.readUInt_eq_ok hread
      have hwithin := checkSingle_eq_ok_iff.1 hcheck
      have hround := Single.toSingle_toDouble_of_withinSingle hwithin
      have hencodes := Builtin.Encodes.single hwithin
      rw [hround, UInt32.toNat_ofNat_of_lt' hfits] at hencodes
      exact ⟨_, hpasses, hencodes, decide_eq_true (congrArg Single.toDouble hround)⟩
    | float64 =>
      rw [unpackNumber_double] at h
      obtain ⟨n, mid, hread, hrest⟩ := Decoder.bind_eq_ok_iff.1 h
      obtain ⟨u, mid', hrequire, hpure⟩ := Decoder.bind_eq_ok_iff.1 hrest
      obtain ⟨hcheck, rfl⟩ := Decoder.require_eq_ok_iff.1 hrequire
      obtain ⟨rfl, rfl⟩ := Decoder.pure_eq_ok_iff.1 hpure
      obtain ⟨hfits, hpasses⟩ := Decoder.readUInt_eq_ok hread
      have hencodes := Builtin.Encodes.double (checkDouble_eq_ok_iff.1 hcheck)
      rw [UInt64.toNat_ofNat_of_lt' hfits] at hencodes
      exact ⟨_, hpasses, hencodes, rfl⟩
    | _ => cases hkind

end WireCodec
