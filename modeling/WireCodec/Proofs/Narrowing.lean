import WireCodec.Proofs.Locality
import WireCodec.Proofs.Packing
import WireCodec.Proofs.Rounding

/-!
# Singles on the wire

A float is held to the bound of single precision before it is rounded when it is written, and
after it was rounded when it is read.  The bound lies between the two greatest finite singles.  What
rounds to the greatest one is therefore written but not read.

* `Double.RoundsToSingle x y`     `y` is `x` rounded to single precision, said of numbers;
* `Double.lastReadable`           the greatest double that rounds to a single within the bound;
* `Double.roundsToSingle`         a double within the bound is rounded by way of `toSingle`;
* `Double.RoundsToSingle.withinSingle_iff_le`   the result is within the bound up to `lastReadable`;
* `readAll_unpackNumber_single`   what is read where the bytes of a single stand;
* `Schema.unpack_pack_single`     so a written float32 is read up to `lastReadable`, and refused from
                                  there on.
-/

namespace WireCodec

namespace BinaryFormat

theorem withSign_lt {f : BinaryFormat} {m : Nat} (negative : Bool) (hm : m < f.signBit) :
    f.withSign negative m < 2 * f.signBit := by
  unfold withSign
  split <;> omega

/-- A single and the double that it is converted to stand for the same number. -/
theorem value_nearest_double {m : Nat} (hm : m < single.infinity) :
    double.value (double.nearest (single.finiteParts m).1 (single.finiteParts m).2) =
      single.value m := by
  obtain ⟨e, hexp, hsum, hhigh, hlow⟩ := single.finiteParts_spec m
  unfold value
  rw [hexp]
  generalize (single.finiteParts m).1 = n at *
  by_cases hn : n = 0
  · have hzero : double.value 0 = 0 := double.value_zero
    unfold value at hzero
    subst hn
    unfold nearest
    rw [if_pos rfl, hzero, Nat.cast_zero, zero_mul]
  · have hsum' : m = e * 8388608 + n := hsum
    have hlow' : 8388608 ≤ n ∨ e = 0 := hlow
    have hhigh' : n < 16777216 := hhigh
    rw [infinity_single] at hm
    have hlog : n.log2 < 24 := log2_lt_of_lt_twoPow hn hhigh
    have he : e ≤ 253 := by omega
    obtain ⟨hnearest, hS, hS'⟩ := nearest_double hn hhigh he
    have hvalue := double.value_sum (e := e + n.log2 + 873) (.inr hS) (Nat.le_of_lt hS')
    have hexp' : double.leastExponent + ((e + n.log2 + 873 : Nat) : Int) =
        single.leastExponent + e - (52 - n.log2 : Nat) := by
      show (-1074 : Int) + (e + n.log2 + 873 : Nat) = -149 + e - (52 - n.log2 : Nat)
      omega
    rw [hnearest]
    refine hvalue.trans ?_
    rw [hexp', Nat.cast_mul, cast_twoPow, mul_assoc, ← zpow_add₀ two_ne_zero, add_sub_cancel]

theorem value_second_greatest : single.value 0x7F7FFFFE = 16777214 * 2 ^ (104 : Int) := rfl

theorem value_greatest : single.value 0x7F7FFFFF = 16777215 * 2 ^ (104 : Int) := rfl

end BinaryFormat

open BinaryFormat

namespace Double

def size (x : Double) : ℚ :=
  double.value (double.magnitude x.bits.toNat)

/-- `y` is `x` rounded to single precision: it has the sign of `x`, and its size is the finite one
of single precision that is closest to that of `x`. -/
def RoundsToSingle (x y : Double) : Prop :=
  double.isNegative y.bits.toNat = double.isNegative x.bits.toNat ∧
    ∃ m < single.infinity, y.size = single.value m ∧ single.Closest x.size m

/-- The middle of the two greatest finite singles. -/
def lastReadable : Double := ⟨0x47EFFFFFD0000000⟩

/-! ## The bound and the greatest singles -/

theorem size_lastReadable :
    single.value 0x7F7FFFFE + single.value 0x7F7FFFFF = 2 * lastReadable.size := by
  have hsize : lastReadable.size = 9007198449434624 * 2 ^ (75 : Int) := rfl
  rw [value_second_greatest, value_greatest, hsize]
  norm_num

theorem size_singleLimit :
    single.value 0x7F7FFFFE < singleLimit.size ∧ singleLimit.size < single.value 0x7F7FFFFF := by
  have hsize : singleLimit.size = 9007198716850230 * 2 ^ (75 : Int) := rfl
  rw [value_second_greatest, value_greatest, hsize]
  norm_num

theorem withinSingle_iff {x : Double} : x.withinSingle = true ↔ x.size < singleLimit.size := by
  refine decide_eq_true_iff.trans ?_
  exact double.strictMono_value.lt_iff_lt.symm

/-! ## Rounding and widening -/

/-- A double within the bound is rounded to the closest pattern, which is finite. -/
theorem toSingle_of_withinSingle {x : Double} (h : x.withinSingle = true) :
    ∃ m < single.infinity,
      x.toSingle.bits.toNat = single.withSign (double.isNegative x.bits.toNat) m ∧
        single.Closest x.size m := by
  have hfinite : double.magnitude x.bits.toNat < double.infinity :=
    Nat.lt_trans (of_decide_eq_true h) (by decide)
  have hbits := withSign_magnitude (f := double) x.bits.toNat_lt
  obtain ⟨m, hnearest, hclosest⟩ := single.nearest_eq_min (by decide)
    (double.finiteParts (double.magnitude x.bits.toNat)).1
    (double.finiteParts (double.magnitude x.bits.toNat)).2
  have hm : m < single.infinity := by
    have hle := hclosest.le_of_le_value ((withinSingle_iff.1 h).trans size_singleLimit.2).le
    exact Nat.lt_of_le_of_lt hle (by decide)
  refine ⟨m, hm, ?_, hclosest⟩
  have hconvert : double.convert single x.bits.toNat =
      single.withSign (double.isNegative x.bits.toNat) m := by
    have hrounded := convert_finite single (double.isNegative x.bits.toNat) hfinite
    rwa [hbits, hnearest, Nat.min_eq_left hm.le] at hrounded
  show (UInt32.ofNat _).toNat = _
  rw [hconvert, UInt32.toNat_ofNat']
  exact Nat.mod_eq_of_lt (withSign_lt _ (Nat.lt_trans hm single.infinity_lt_signBit))

end Double

/-- A finite single keeps its sign and its number in double precision. -/
theorem Single.toDouble_of_finite {r : Single} {negative : Bool} {m : Nat}
    (hbits : r.bits.toNat = single.withSign negative m) (hm : m < single.infinity) :
    double.isNegative r.toDouble.bits.toNat = negative ∧ r.toDouble.size = single.value m := by
  obtain ⟨hfinite, -⟩ := nearest_nearest hm
  have hsign := Nat.lt_trans hfinite double.infinity_lt_signBit
  have hconvert := convert_finite double negative hm
  have hwide : r.toDouble.bits.toNat = double.withSign negative
      (double.nearest (single.finiteParts m).1 (single.finiteParts m).2) := by
    rw [← hbits] at hconvert
    rw [← hconvert]
    apply Single.toNat_bits_toDouble
    rw [hconvert]
    exact withSign_lt negative hsign
  refine ⟨?_, ?_⟩
  · rw [hwide, isNegative_withSign negative hsign]
  · unfold Double.size
    rw [hwide, magnitude_withSign negative hsign, value_nearest_double hm]

namespace Double

theorem roundsToSingle {x : Double} (h : x.withinSingle = true) :
    x.RoundsToSingle x.toSingle.toDouble := by
  obtain ⟨m, hm, hbits, hclosest⟩ := toSingle_of_withinSingle h
  obtain ⟨hsign, hsize⟩ := Single.toDouble_of_finite hbits hm
  exact ⟨hsign, m, hm, hsize, hclosest⟩

/-- The bound separates the two greatest singles, so that the middle between these decides. -/
theorem RoundsToSingle.withinSingle_iff_le {x y : Double} (h : x.RoundsToSingle y) :
    y.withinSingle = true ↔ double.magnitude x.bits.toNat ≤ lastReadable.bits.toNat := by
  obtain ⟨-, m, -, hsize, hclosest⟩ := h
  obtain ⟨hbelow, habove⟩ := size_singleLimit
  have hmiddle := size_lastReadable
  rw [withinSingle_iff, hsize]
  refine ⟨?_, ?_⟩
  · intro hwithin
    by_contra hgreater
    have hx : lastReadable.size < x.size := double.strictMono_value (Nat.not_le.1 hgreater)
    have hm : 0x7F7FFFFE < m := hclosest.lt_of_midpoint (by linarith)
    have hle := single.strictMono_value.monotone (Nat.succ_le_of_lt hm)
    linarith
  · intro hle
    have hx : x.size ≤ lastReadable.size := double.strictMono_value.monotone hle
    have hm : m ≤ 0x7F7FFFFE := hclosest.le_of_midpoint rfl (by linarith)
    have hle := single.strictMono_value.monotone hm
    linarith

end Double

/-! ## Reading a single -/

theorem readAll_unpackNumber_single (typeName : String) (r : Single) :
    Decoder.readAll typeName (unpackNumber typeName .float32)
        (LittleEndian.toBytes 4 r.bits.toNat) =
      (checkSingle typeName r.toDouble).map fun _ => .float r.toDouble := by
  have hbits : (⟨UInt32.ofNat r.bits.toNat⟩ : Single) = r := congrArg Single.mk UInt32.ofNat_toNat
  have hfits : r.bits.toNat < twoPow (8 * 4) := r.bits.toNat_lt
  have hrun := (Decoder.reads_readUInt hfits).run_bind (fun n =>
    Decoder.require (checkSingle typeName (Single.toDouble ⟨UInt32.ofNat n⟩)) >>= fun _ =>
      pure (.float (Single.toDouble ⟨UInt32.ofNat n⟩) : Value)) 0 []
  rw [List.append_nil, hbits] at hrun
  rw [unpackNumber_single]
  unfold Decoder.readAll Reader.ofBytes
  rw [hrun]
  cases checkSingle typeName r.toDouble with
  | ok u => rfl
  | error e => rfl

namespace Schema

variable {name version : String} {declared : List TypeDef} {s : Schema}

/-- A float that is written as a float32 was rounded to single precision.  It is read again as the
rounded one exactly if it lies within the middle of the two greatest singles; the others round to a
single beyond the bound, which is refused. -/
theorem unpack_pack_single (h : build name version declared = .ok s) {d : TypeDef}
    (hd : d ∈ s.definitions) (hfloat : d.asBuiltin? = some .float32) {x : Double}
    {bytes : List UInt8} (hpack : s.pack d.name (.float x) = .ok bytes) :
    x.RoundsToSingle x.toSingle.toDouble ∧
      (s.unpack d.name bytes = .ok (.float x.toSingle.toDouble) ↔
        double.magnitude x.bits.toNat ≤ Double.lastReadable.bits.toNat) ∧
      (Double.lastReadable.bits.toNat < double.magnitude x.bits.toNat →
        s.unpack d.name bytes = .error (.range d.name x.toSingle.toDouble.plain)) := by
  have hlayout := (consistent_of_build h).layout?_of_asBuiltin? hd hfloat
  rw [pack_of_layout? hlayout, Layout.pack_number, bytesOf_packNumber] at hpack
  cases hpack with
  | single hwithin =>
    have hrounds := Double.roundsToSingle hwithin
    have hread : s.unpack d.name (LittleEndian.toBytes 4 x.toSingle.bits.toNat) =
        (checkSingle d.name x.toSingle.toDouble).map fun _ => .float x.toSingle.toDouble := by
      unfold unpack
      rw [unpackFrom_of_layout? hlayout, Layout.unpack, readAll_unpackNumber_single]
    rw [hread, ← hrounds.withinSingle_iff_le]
    unfold checkSingle
    refine ⟨hrounds, ?_, ?_⟩
    · cases hcheck : x.toSingle.toDouble.withinSingle with
      | true => exact ⟨fun _ => rfl, fun _ => rfl⟩
      | false =>
        refine ⟨?_, ?_⟩
        · intro hok
          cases hok
        · intro htrue
          cases htrue
    · intro hgreater
      have hbeyond : ¬ x.toSingle.toDouble.withinSingle = true := fun hwithin =>
        Nat.not_le.2 hgreater (hrounds.withinSingle_iff_le.1 hwithin)
      rw [if_neg hbeyond]
      rfl

open Sample

/-- The double behind the last readable one rounds up to the greatest single, which is written but
not read. -/
theorem exists_unpack_pack_single_error :
    ∃ s, build "pairs" "1.0.0" Pairs.extended = .ok s ∧
      s.pack "float32" (.float ⟨0x47EFFFFFD0000001⟩) = .ok [0xFF, 0xFF, 0x7F, 0x7F] ∧
      s.unpack "float32" [0xFF, 0xFF, 0x7F, 0x7F] =
        .error (.range "float32" (Double.plain ⟨0x47EFFFFFE0000000⟩)) := by
  have hrun : (build "pairs" "1.0.0" Pairs.extended).map (fun s =>
      (s.pack "float32" (.float ⟨0x47EFFFFFD0000001⟩),
        s.unpack "float32" [0xFF, 0xFF, 0x7F, 0x7F])) =
      .ok (.ok [0xFF, 0xFF, 0x7F, 0x7F],
        .error (.range "float32" (Double.plain ⟨0x47EFFFFFE0000000⟩))) := by
    rfl
  obtain ⟨s, hs, hresults⟩ := exists_of_map_eq_ok hrun
  obtain ⟨hpack, hunpack⟩ := Prod.mk.inj hresults
  exact ⟨s, hs, hpack, hunpack⟩

/-- The last readable double is a tie; as an angle it is read as the even neighbour below. -/
theorem unpack_pack_single_angle :
    ∃ s, build "pairs" "1.0.0" Pairs.extended = .ok s ∧
      .scalar ⟨"angle", .float32⟩ ∈ s.definitions ∧
      s.pack "angle" (.float Double.lastReadable) = .ok [0xFE, 0xFF, 0x7F, 0x7F] ∧
      Double.RoundsToSingle Double.lastReadable ⟨0x47EFFFFFC0000000⟩ ∧
      s.unpack "angle" [0xFE, 0xFF, 0x7F, 0x7F] = .ok (.float ⟨0x47EFFFFFC0000000⟩) := by
  have hrun : (build "pairs" "1.0.0" Pairs.extended).map (fun s =>
      (s.declared, s.pack "angle" (.float Double.lastReadable))) =
      .ok (Pairs.extended, .ok [0xFE, 0xFF, 0x7F, 0x7F]) := by
    rfl
  obtain ⟨s, hs, hresults⟩ := exists_of_map_eq_ok hrun
  obtain ⟨hdeclared, hpack⟩ := Prod.mk.inj hresults
  have hmem : .scalar ⟨"angle", .float32⟩ ∈ s.definitions := by
    unfold definitions
    rw [hdeclared]
    exact List.mem_append_right _ (List.mem_cons_of_mem _ List.mem_cons_self)
  obtain ⟨hrounds, hread, -⟩ := unpack_pack_single hs hmem rfl hpack
  exact ⟨s, hs, hmem, hpack, hrounds, hread.2 (Nat.le_refl _)⟩

end Schema
end WireCodec
