import WireCodec.Number.Binary

/-!
# Single precision in double precision

Every number of single precision is one of double precision, and rounding it back changes nothing.

* `finiteParts_spec`        a finite pattern is `e * 2 ^ fractionBits + significand`;
* `nearest_of_scaled_up`, `nearest_of_scaled_down`   `nearest` finds the pattern of a number that
                            has one, from a significand with too few or with too many bits;
* `Single.toSingle_toDouble`   a single comes back from double precision with all its bits;
* `Single.isNaN_eq_false_of_withinSingle`   what is no number stays beyond the bound.
-/

namespace WireCodec

/-! ## Powers of two and the number of bits -/

theorem twoPow_succ (n : Nat) : twoPow (n + 1) = 2 * twoPow n := by
  rw [twoPow_add, Nat.mul_comm]
  rfl

theorem log2_eq_of_bounds {n k : Nat} (hlow : twoPow k ≤ n) (hhigh : n < twoPow (k + 1)) :
    n.log2 = k := by
  have hn : n ≠ 0 := Nat.ne_of_gt (Nat.lt_of_lt_of_le (twoPow_pos k) hlow)
  exact (Nat.log2_eq_iff hn).2 ⟨hlow, hhigh⟩

theorem log2_bounds {n : Nat} (hn : n ≠ 0) : twoPow n.log2 ≤ n ∧ n < twoPow (n.log2 + 1) :=
  (Nat.log2_eq_iff hn).1 rfl

theorem log2_lt_of_lt_twoPow {n k : Nat} (hn : n ≠ 0) (h : n < twoPow k) : n.log2 < k :=
  (Nat.log2_lt hn).2 h

theorem log2_mul_twoPow {n : Nat} (hn : n ≠ 0) (k : Nat) :
    (n * twoPow k).log2 = n.log2 + k := by
  obtain ⟨hlow, hhigh⟩ := log2_bounds hn
  apply log2_eq_of_bounds
  · rw [twoPow_add]
    exact Nat.mul_le_mul_right _ hlow
  · rw [show n.log2 + k + 1 = n.log2 + 1 + k by omega, twoPow_add]
    exact Nat.mul_lt_mul_of_pos_right hhigh (twoPow_pos k)

namespace BinaryFormat

/-- Nothing is rounded where the bits shifted out are zeros. -/
theorem shiftRightRounded_mul_twoPow (n k : Nat) :
    shiftRightRounded (n * twoPow k) k = n := by
  have hpos := twoPow_pos k
  unfold shiftRightRounded
  rw [Nat.mul_div_cancel n hpos, Nat.mul_mod_left]
  have hne : ¬ (twoPow k < 2 * 0 ∨ twoPow k = 2 * 0 ∧ n % 2 = 1) := by omega
  simp only [Bool.or_eq_true, Bool.and_eq_true, decide_eq_true_eq]
  rw [if_neg hne]

variable (f : BinaryFormat)

/-! ## Finite patterns -/

/-- A pattern without sign is its exponent field above its significand; only the least exponent
has significands without the leading bit. -/
theorem finiteParts_spec (m : Nat) :
    ∃ e : Nat, (f.finiteParts m).2 = f.leastExponent + e ∧
      m = e * twoPow f.fractionBits + (f.finiteParts m).1 ∧
      (f.finiteParts m).1 < twoPow (f.fractionBits + 1) ∧
      (twoPow f.fractionBits ≤ (f.finiteParts m).1 ∨ e = 0) := by
  have hpos := twoPow_pos f.fractionBits
  have hmod := Nat.mod_lt m hpos
  have hdiv := Nat.div_add_mod m (twoPow f.fractionBits)
  have hsucc := twoPow_succ f.fractionBits
  unfold finiteParts
  cases hfield : m / twoPow f.fractionBits with
  | zero =>
    rw [hfield, Nat.mul_zero] at hdiv
    refine ⟨0, ?_, ?_, ?_, .inr rfl⟩
    · show f.leastExponent = f.leastExponent + (0 : Nat)
      omega
    · show m = 0 * twoPow f.fractionBits + m % twoPow f.fractionBits
      omega
    · show m % twoPow f.fractionBits < twoPow (f.fractionBits + 1)
      omega
  | succ e =>
    rw [hfield, Nat.mul_succ, Nat.mul_comm] at hdiv
    refine ⟨e, rfl, ?_, ?_, .inl ?_⟩
    · show m = e * twoPow f.fractionBits +
        (twoPow f.fractionBits + m % twoPow f.fractionBits)
      omega
    · show twoPow f.fractionBits + m % twoPow f.fractionBits < twoPow (f.fractionBits + 1)
      omega
    · exact Nat.le_add_right _ _

theorem finiteParts_of_normal {s : Nat} (e : Nat) (hlow : twoPow f.fractionBits ≤ s)
    (hhigh : s < twoPow (f.fractionBits + 1)) :
    f.finiteParts (e * twoPow f.fractionBits + s) = (s, f.leastExponent + e) := by
  have hpos := twoPow_pos f.fractionBits
  have hsucc := twoPow_succ f.fractionBits
  obtain ⟨t, rfl⟩ := Nat.exists_eq_add_of_le hlow
  have ht : t < twoPow f.fractionBits := by omega
  have hsum : e * twoPow f.fractionBits + (twoPow f.fractionBits + t) =
      t + twoPow f.fractionBits * (e + 1) := by
    rw [Nat.mul_succ, Nat.mul_comm e]
    omega
  unfold finiteParts
  rw [hsum, Nat.add_mul_mod_self_left, Nat.mod_eq_of_lt ht, Nat.add_mul_div_left _ _ hpos,
    Nat.div_eq_of_lt ht, Nat.zero_add]

/-! ## Numbers that have a pattern -/

/-- A significand with few bits is shifted to the left until its leading bit is in place. -/
theorem nearest_of_scaled_up {n e k : Nat} (hn : n ≠ 0)
    (hk : n.log2 + k = f.fractionBits)
    (hfinite : e * twoPow f.fractionBits + n * twoPow k ≤ f.infinity) :
    f.nearest n (f.leastExponent + e + k) = e * twoPow f.fractionBits + n * twoPow k := by
  have htarget : max (f.leastExponent + e + k + ((n.log2 : Int) - f.fractionBits))
      f.leastExponent = f.leastExponent + e := by omega
  unfold nearest
  rw [if_neg hn]
  simp only [htarget]
  rw [if_pos (by omega), show (f.leastExponent + e - f.leastExponent).toNat = e by omega,
    show (f.leastExponent + e + k - (f.leastExponent + e)).toNat = k by omega]
  exact Nat.min_eq_left hfinite

/-- A significand with zeros at its end is shifted to the right, down to the least exponent. -/
theorem nearest_of_scaled_down {s e k : Nat} (hs : s ≠ 0) (hk : 0 < k)
    (hhigh : s < twoPow (f.fractionBits + 1)) (hlow : twoPow f.fractionBits ≤ s ∨ e = 0)
    (hfinite : e * twoPow f.fractionBits + s ≤ f.infinity) :
    f.nearest (s * twoPow k) (f.leastExponent + e - k) = e * twoPow f.fractionBits + s := by
  have hne : s * twoPow k ≠ 0 := Nat.mul_ne_zero hs (Nat.ne_of_gt (twoPow_pos k))
  have hbits : s.log2 < f.fractionBits + 1 := log2_lt_of_lt_twoPow hs hhigh
  have htarget : max (f.leastExponent + e - k +
      (((s.log2 + k : Nat) : Int) - f.fractionBits)) f.leastExponent = f.leastExponent + e := by
    rcases hlow with hlow | hzero
    · have hlog : s.log2 = f.fractionBits := log2_eq_of_bounds hlow hhigh
      omega
    · omega
  unfold nearest
  rw [if_neg hne, log2_mul_twoPow hs]
  simp only [htarget]
  rw [if_neg (by omega), show (f.leastExponent + e - f.leastExponent).toNat = e by omega,
    show (f.leastExponent + e - (f.leastExponent + e - k)).toNat = k by omega,
    shiftRightRounded_mul_twoPow]
  exact Nat.min_eq_left hfinite

/-! ## Signs -/

theorem infinity_lt_signBit : f.infinity < f.signBit := by
  unfold infinity signBit
  rw [Nat.add_comm f.fractionBits, twoPow_add]
  have hpos := twoPow_pos f.exponentBits
  exact Nat.mul_lt_mul_of_pos_right (by omega) (twoPow_pos f.fractionBits)

variable {f}

theorem magnitude_withSign {m : Nat} (negative : Bool) (hm : m < f.signBit) :
    f.magnitude (f.withSign negative m) = m := by
  unfold magnitude withSign
  cases negative with
  | true =>
    show (f.signBit + m) % f.signBit = m
    rw [Nat.add_mod_left, Nat.mod_eq_of_lt hm]
  | false => exact Nat.mod_eq_of_lt hm

theorem isNegative_withSign {m : Nat} (negative : Bool) (hm : m < f.signBit) :
    f.isNegative (f.withSign negative m) = negative := by
  unfold isNegative withSign
  cases negative with
  | true => exact decide_eq_true (Nat.le_add_right _ _)
  | false => exact decide_eq_false (Nat.not_le.2 hm)

theorem withSign_magnitude {bits : Nat} (h : bits < 2 * f.signBit) :
    f.withSign (f.isNegative bits) (f.magnitude bits) = bits := by
  unfold withSign isNegative magnitude
  by_cases hneg : f.signBit ≤ bits
  · rw [if_pos (decide_eq_true hneg), Nat.mod_eq_sub_mod hneg,
      Nat.mod_eq_of_lt (by omega)]
    omega
  · rw [if_neg (by rw [decide_eq_false hneg]; decide), Nat.mod_eq_of_lt (by omega)]

theorem classify_finite {m : Nat} (negative : Bool) (hm : m < f.infinity) :
    f.classify (f.withSign negative m) =
      .finite negative (f.finiteParts m).1 (f.finiteParts m).2 := by
  have hsign := Nat.lt_trans hm f.infinity_lt_signBit
  unfold classify
  rw [magnitude_withSign negative hsign, isNegative_withSign negative hsign,
    if_neg (by omega), if_neg (by omega)]

theorem classify_infinite (negative : Bool) :
    f.classify (f.withSign negative f.infinity) = .infinite negative := by
  have hsign := f.infinity_lt_signBit
  unfold classify
  rw [magnitude_withSign negative hsign, isNegative_withSign negative hsign,
    if_neg (Nat.lt_irrefl _), if_pos rfl]

theorem convert_finite (g : BinaryFormat) {m : Nat} (negative : Bool) (hm : m < f.infinity) :
    f.convert g (f.withSign negative m) =
      g.withSign negative (g.nearest (f.finiteParts m).1 (f.finiteParts m).2) := by
  unfold convert
  rw [classify_finite negative hm]

theorem convert_infinite (g : BinaryFormat) (negative : Bool) :
    f.convert g (f.withSign negative f.infinity) = g.withSign negative g.infinity := by
  unfold convert
  rw [classify_infinite negative]

/-! ## From single to double precision and back -/

theorem infinity_single : single.infinity = 255 * 8388608 := rfl

theorem infinity_double : double.infinity = 2047 * 4503599627370496 := rfl

/-- A single that is not zero is a normal double: its significand is shifted to the left until
it has 53 bits. -/
theorem nearest_double {n e : Nat} (hn : n ≠ 0) (hhigh : n < twoPow 24) (he : e ≤ 253) :
    double.nearest n (single.leastExponent + e) =
        (e + n.log2 + 873) * twoPow 52 + n * twoPow (52 - n.log2) ∧
      twoPow 52 ≤ n * twoPow (52 - n.log2) ∧ n * twoPow (52 - n.log2) < twoPow 53 := by
  have hlog : n.log2 < 24 := log2_lt_of_lt_twoPow hn hhigh
  have hne : n * twoPow (52 - n.log2) ≠ 0 :=
    Nat.mul_ne_zero hn (Nat.ne_of_gt (twoPow_pos _))
  have hbits : (n * twoPow (52 - n.log2)).log2 = 52 := by
    rw [log2_mul_twoPow hn]
    omega
  obtain ⟨hlow, hlt⟩ := log2_bounds hne
  rw [hbits] at hlow hlt
  refine ⟨?_, hlow, hlt⟩
  have hexp : single.leastExponent + (e : Int) =
      double.leastExponent + (e + n.log2 + 873 : Nat) + (52 - n.log2 : Nat) := by
    show (-149 : Int) + e = -1074 + (e + n.log2 + 873 : Nat) + (52 - n.log2 : Nat)
    omega
  rw [hexp]
  refine double.nearest_of_scaled_up hn ?_ ?_
  · show n.log2 + (52 - n.log2) = 52
    omega
  · rw [infinity_double]
    show (e + n.log2 + 873) * 4503599627370496 + n * twoPow (52 - n.log2) ≤ _
    have hlt' : n * twoPow (52 - n.log2) < 9007199254740992 := hlt
    omega

/-- The double of a finite single rounds back to it. -/
theorem nearest_nearest {m : Nat} (hm : m < single.infinity) :
    double.nearest (single.finiteParts m).1 (single.finiteParts m).2 < double.infinity ∧
      single.nearest
        (double.finiteParts
          (double.nearest (single.finiteParts m).1 (single.finiteParts m).2)).1
        (double.finiteParts
          (double.nearest (single.finiteParts m).1 (single.finiteParts m).2)).2 = m := by
  obtain ⟨e, hexp, hsum, hhigh, hlow⟩ := single.finiteParts_spec m
  generalize hn : (single.finiteParts m).1 = n at *
  have hsum' : m = e * 8388608 + n := hsum
  have hhigh' : n < 16777216 := hhigh
  have hlow' : 8388608 ≤ n ∨ e = 0 := hlow
  rw [infinity_single] at hm
  rw [hexp]
  by_cases hzero : n = 0
  · -- Zero has no leading bit; it is the pattern without exponent and significand.
    have hm0 : m = 0 := by omega
    have he0 : e = 0 := by omega
    subst hzero hm0 he0
    exact ⟨by decide, by decide⟩
  · have he : e ≤ 253 := by omega
    obtain ⟨hnearest, hS, hS'⟩ := nearest_double hzero hhigh he
    have hlog : n.log2 < 24 := log2_lt_of_lt_twoPow hzero hhigh
    rw [hnearest]
    refine ⟨?_, ?_⟩
    · rw [infinity_double]
      show (e + n.log2 + 873) * 4503599627370496 + n * twoPow (52 - n.log2) < _
      have hlt : n * twoPow (52 - n.log2) < 9007199254740992 := hS'
      omega
    · have hparts := double.finiteParts_of_normal (e + n.log2 + 873) hS hS'
      show single.nearest
        (double.finiteParts ((e + n.log2 + 873) * twoPow double.fractionBits + _)).1
        (double.finiteParts ((e + n.log2 + 873) * twoPow double.fractionBits + _)).2 = m
      rw [hparts]
      have hexp : double.leastExponent + (e + n.log2 + 873 : Nat) =
          single.leastExponent + e - (52 - n.log2 : Nat) := by
        show (-1074 : Int) + (e + n.log2 + 873 : Nat) = -149 + e - (52 - n.log2 : Nat)
        omega
      rw [hexp, hsum]
      refine single.nearest_of_scaled_down hzero (by omega) hhigh hlow ?_
      rw [infinity_single]
      show e * 8388608 + n ≤ _
      omega

/-- Patterns of single precision that stand for a number come back from double precision. -/
theorem convert_convert {bits : Nat} (hbits : bits < twoPow 32)
    (hnumber : single.isNaN bits = false) :
    single.convert double bits < twoPow 64 ∧
      double.convert single (single.convert double bits) = bits := by
  have hsign : bits < 2 * single.signBit := hbits
  have hm : single.magnitude bits ≤ single.infinity :=
    Nat.not_lt.1 (of_decide_eq_false hnumber)
  obtain ⟨negative, m, hbits', hm'⟩ : ∃ negative m, bits = single.withSign negative m ∧
      m ≤ single.infinity := ⟨_, _, (withSign_magnitude hsign).symm, hm⟩
  have hsmall : ∀ d : Nat, d ≤ double.infinity → double.withSign negative d < twoPow 64 := by
    intro d hd
    have hlt : d < 9223372036854775808 := Nat.lt_of_le_of_lt hd double.infinity_lt_signBit
    unfold withSign
    cases negative with
    | true =>
      show 9223372036854775808 + d < 18446744073709551616
      omega
    | false =>
      show d < 18446744073709551616
      omega
  rw [hbits']
  rcases Nat.lt_or_eq_of_le hm' with hfinite | rfl
  · obtain ⟨hlt, hback⟩ := nearest_nearest hfinite
    rw [convert_finite double negative hfinite, convert_finite single negative hlt, hback]
    exact ⟨hsmall _ (Nat.le_of_lt hlt), rfl⟩
  · rw [convert_infinite double negative, convert_infinite single negative]
    exact ⟨hsmall _ (Nat.le_refl _), rfl⟩

theorem quieted_lt {kept : Nat} (h : kept < twoPow 52) :
    (if kept < twoPow 51 then kept + twoPow 51 else kept) < twoPow 52 := by
  have hsum : twoPow 51 + twoPow 51 = twoPow 52 := rfl
  by_cases hquiet : kept < twoPow 51
  · rw [if_pos hquiet]
    omega
  · rwa [if_neg hquiet]

/-- What is no number keeps an exponent field of ones, so it lies beyond the infinity. -/
theorem infinity_le_convert {bits : Nat} (h : single.isNaN bits = true) :
    single.convert double bits < twoPow 64 ∧
      double.infinity ≤ double.magnitude (single.convert double bits) := by
  have hclass : single.classify bits = .nan := by
    unfold classify
    exact if_pos (of_decide_eq_true h)
  have hfraction : single.magnitude bits % twoPow 23 < 8388608 := Nat.mod_lt _ (twoPow_pos 23)
  -- The leading bits of the fraction move to the front of the wider one.
  obtain ⟨x, hx, hconvert⟩ : ∃ x < 4503599627370496, single.convert double bits =
      double.withSign (single.isNegative bits) (double.infinity + x) := by
    unfold convert
    rw [hclass]
    exact ⟨_, quieted_lt (Nat.div_lt_of_lt_mul
      (Nat.mul_lt_mul_of_pos_right hfraction (twoPow_pos 52))), rfl⟩
  have hsign : double.infinity + x < double.signBit := by
    rw [infinity_double]
    show _ < 9223372036854775808
    omega
  rw [hconvert, magnitude_withSign _ hsign]
  refine ⟨?_, Nat.le_add_right _ _⟩
  rw [infinity_double] at hsign ⊢
  unfold withSign
  split
  · show 9223372036854775808 + _ < 18446744073709551616
    omega
  · show _ < 18446744073709551616
    omega

end BinaryFormat

namespace Single

theorem toNat_bits_toDouble {x : Single}
    (h : BinaryFormat.single.convert .double x.bits.toNat < twoPow 64) :
    x.toDouble.bits.toNat = BinaryFormat.single.convert .double x.bits.toNat := by
  show (UInt64.ofNat _).toNat = _
  rw [UInt64.toNat_ofNat']
  exact Nat.mod_eq_of_lt h

/-- A single comes back from double precision with all its bits. -/
theorem toSingle_toDouble {x : Single} (h : BinaryFormat.single.isNaN x.bits.toNat = false) :
    x.toDouble.toSingle = x := by
  obtain ⟨hlt, hback⟩ := BinaryFormat.convert_convert x.bits.toNat_lt h
  unfold Double.toSingle
  rw [toNat_bits_toDouble hlt, hback, UInt32.ofNat_toNat]

/-- The bound of single precision keeps out what is no number. -/
theorem isNaN_eq_false_of_withinSingle {x : Single} (h : x.toDouble.withinSingle = true) :
    BinaryFormat.single.isNaN x.bits.toNat = false := by
  refine Bool.eq_false_iff.2 fun hnan => ?_
  obtain ⟨hlt, hinfinity⟩ := BinaryFormat.infinity_le_convert hnan
  have hwithin : BinaryFormat.double.magnitude x.toDouble.bits.toNat <
      Double.singleLimit.bits.toNat := of_decide_eq_true h
  rw [toNat_bits_toDouble hlt] at hwithin
  have hlimit : Double.singleLimit.bits.toNat < BinaryFormat.double.infinity := by decide
  omega

theorem toSingle_toDouble_of_withinSingle {x : Single} (h : x.toDouble.withinSingle = true) :
    x.toDouble.toSingle = x :=
  toSingle_toDouble (isNaN_eq_false_of_withinSingle h)

end Single
end WireCodec
