import Mathlib.Algebra.Order.Field.Power
import Mathlib.Algebra.Order.Field.Rat
import Mathlib.Order.Monotone.Basic
import Mathlib.Tactic.Linarith
import Mathlib.Tactic.NormNum
import Mathlib.Tactic.Ring
import WireCodec.Proofs.Widening

/-!
# Rounding to the nearest number

What `BinaryFormat.nearest` computes, said of the numbers that patterns stand for.

* `RoundsToEven y n`                   `n` is the integer nearest to `y`, of two the even one;
* `BinaryFormat.value m`               the number of a pattern without sign;
* `BinaryFormat.strictMono_value`      numbers are ordered as their patterns;
* `BinaryFormat.Closest x m`           no number is closer to `x` than that of `m`, and if another is
                                       as close then `m` is the even pattern;
* `BinaryFormat.nearest_eq_min`        `nearest` finds the closest pattern, infinity beyond the
                                       last;
* `BinaryFormat.Closest.le_of_midpoint`, `BinaryFormat.Closest.lt_of_midpoint`
                                       a number rounds up if it lies above the middle of two
                                       neighbours.
-/

namespace WireCodec

theorem cast_twoPow (n : Nat) : ((twoPow n : Nat) : ℚ) = 2 ^ (n : Int) := by
  rw [zpow_natCast]
  exact Nat.cast_pow 2 n

/-! ## Rounding to integers -/

structure RoundsToEven (y : ℚ) (n : Nat) : Prop where
  close : |y - n| ≤ 1 / 2
  even : |y - n| = 1 / 2 → n % 2 = 0

theorem roundsToEven_natCast (n : Nat) : RoundsToEven n n := by
  refine ⟨?_, ?_⟩
  · rw [sub_self, abs_zero]
    norm_num
  · intro h
    rw [sub_self, abs_zero] at h
    norm_num at h

section
variable {y : ℚ} {n k : Nat} (h : RoundsToEven y n)
include h

theorem RoundsToEven.le_of_natCast_le (hk : (k : ℚ) ≤ y) : k ≤ n := by
  have hclose := (abs_le.1 h.close).2
  have hlt : (k : ℚ) < (n + 1 : Nat) := by
    rw [Nat.cast_add_one]
    linarith
  exact Nat.lt_succ_iff.1 (Nat.cast_lt.1 hlt)

theorem RoundsToEven.le_of_le_natCast (hk : y ≤ (k : ℚ)) : n ≤ k := by
  have hclose := (abs_le.1 h.close).1
  have hlt : (n : ℚ) < (k + 1 : Nat) := by
    rw [Nat.cast_add_one]
    linarith
  exact Nat.lt_succ_iff.1 (Nat.cast_lt.1 hlt)

theorem RoundsToEven.half_le (hk : k ≠ n) : 1 / 2 ≤ |y - k| := by
  have hone : (1 : ℚ) ≤ |(n : ℚ) - k| := by
    rcases Nat.lt_or_gt_of_ne hk with hlt | hlt
    · have hle : ((k + 1 : Nat) : ℚ) ≤ n := Nat.cast_le.2 hlt
      rw [Nat.cast_add_one] at hle
      exact le_abs.2 (.inl (by linarith))
    · have hle : ((n + 1 : Nat) : ℚ) ≤ k := Nat.cast_le.2 hlt
      rw [Nat.cast_add_one] at hle
      exact le_abs.2 (.inr (by linarith))
  have htriangle := abs_sub_le (n : ℚ) y k
  rw [abs_sub_comm (n : ℚ) y] at htriangle
  have hclose := h.close
  linarith

theorem RoundsToEven.closest (k : Nat) : |y - n| ≤ |y - k| := by
  by_cases hk : k = n
  · rw [hk]
  · exact h.close.trans (h.half_le hk)

theorem RoundsToEven.even_of_tie (hk : k ≠ n) (htie : |y - n| = |y - k|) : n % 2 = 0 :=
  h.even (le_antisymm h.close (htie ▸ h.half_le hk))

end

/-- A quotient with its remainder is rounded by comparing twice the remainder to the divisor. -/
theorem BinaryFormat.roundsToEven_shiftRightRounded (n k : Nat) :
    RoundsToEven (n / twoPow k) (shiftRightRounded n k) := by
  have hpos : (0 : ℚ) < twoPow k := Nat.cast_pos.2 (twoPow_pos k)
  have hrem := Nat.mod_lt n (twoPow_pos k)
  have hsum : (n : ℚ) / twoPow k =
      (n / twoPow k : Nat) + ((n % twoPow k : Nat) : ℚ) / twoPow k := by
    calc (n : ℚ) / twoPow k
        = ((twoPow k * (n / twoPow k) + n % twoPow k : Nat) : ℚ) / twoPow k := by
          rw [Nat.div_add_mod]
      _ = (n / twoPow k : Nat) + ((n % twoPow k : Nat) : ℚ) / twoPow k := by
          rw [Nat.cast_add, Nat.cast_mul, add_div, mul_div_cancel_left₀ _ hpos.ne']
  rw [hsum]
  unfold shiftRightRounded
  generalize n / twoPow k = quotient
  generalize n % twoPow k = remainder at hrem
  generalize twoPow k = divisor at hpos hrem
  have hnonneg : (0 : ℚ) ≤ (remainder : ℚ) / divisor := div_nonneg (Nat.cast_nonneg _) hpos.le
  have hlt : (remainder : ℚ) / divisor < 1 := (div_lt_one₀ hpos).2 (Nat.cast_lt.2 hrem)
  have hhalf : (remainder : ℚ) / divisor = 1 / 2 → 2 * remainder = divisor := by
    intro h
    rw [div_eq_div_iff hpos.ne' two_ne_zero, one_mul] at h
    exact_mod_cast (mul_comm (2 : ℚ) remainder).trans h
  simp only [Bool.or_eq_true, Bool.and_eq_true, decide_eq_true_eq]
  split
  · next hup =>
    have hge : (1 / 2 : ℚ) ≤ (remainder : ℚ) / divisor := by
      rw [div_le_div_iff₀ two_pos hpos, one_mul]
      exact_mod_cast (show divisor ≤ remainder * 2 by omega)
    have habs : |(quotient : ℚ) + (remainder : ℚ) / divisor - (quotient + 1 : Nat)| =
        1 - (remainder : ℚ) / divisor := by
      rw [Nat.cast_add_one, abs_sub_comm, abs_of_nonneg (by linarith)]
      ring
    refine ⟨?_, ?_⟩
    · rw [habs]
      linarith
    · intro htie
      rw [habs] at htie
      have := hhalf (by linarith)
      omega
  · next hdown =>
    have hle : (remainder : ℚ) / divisor ≤ 1 / 2 := by
      rw [div_le_div_iff₀ hpos two_pos, one_mul]
      exact_mod_cast (show remainder * 2 ≤ divisor by omega)
    have habs : |(quotient : ℚ) + (remainder : ℚ) / divisor - quotient| =
        (remainder : ℚ) / divisor := by
      rw [add_sub_cancel_left, abs_of_nonneg hnonneg]
    refine ⟨?_, ?_⟩
    · rw [habs]
      exact hle
    · intro htie
      rw [habs] at htie
      have := hhalf htie
      omega

namespace BinaryFormat

variable (f : BinaryFormat)

/-! ## The numbers of patterns -/

/-- The number of a pattern without sign.  Patterns from infinity on are read like the others, as
if there were no greatest exponent. -/
def value (m : Nat) : ℚ :=
  (f.finiteParts m).1 * 2 ^ (f.finiteParts m).2

/-- The sum of an exponent field and a significand, also one that rounding carried to the next
power of two. -/
theorem value_sum {e s : Nat} (hlow : e = 0 ∨ twoPow f.fractionBits ≤ s)
    (hhigh : s ≤ twoPow (f.fractionBits + 1)) :
    f.value (e * twoPow f.fractionBits + s) = s * 2 ^ (f.leastExponent + e) := by
  have hpos := twoPow_pos f.fractionBits
  have hsucc := twoPow_succ f.fractionBits
  by_cases hnormal : twoPow f.fractionBits ≤ s
  · rcases Nat.lt_or_eq_of_le hhigh with hlt | rfl
    · unfold value
      rw [f.finiteParts_of_normal e hnormal hlt]
    · have hcarry : e * twoPow f.fractionBits + twoPow (f.fractionBits + 1) =
          (e + 1) * twoPow f.fractionBits + twoPow f.fractionBits := by
        rw [hsucc, Nat.add_one_mul e]
        omega
      unfold value
      rw [hcarry, f.finiteParts_of_normal (e + 1) (Nat.le_refl _) (by omega), hsucc]
      have hexp : f.leastExponent + ((e + 1 : Nat) : Int) = f.leastExponent + e + 1 := by omega
      rw [hexp, zpow_add_one₀ two_ne_zero, Nat.cast_mul, Nat.cast_ofNat]
      ring
  · have he : e = 0 := hlow.resolve_right hnormal
    have hlt : s < twoPow f.fractionBits := Nat.not_le.1 hnormal
    subst he
    unfold value finiteParts
    rw [Nat.zero_mul, Nat.zero_add, Nat.mod_eq_of_lt hlt, Nat.div_eq_of_lt hlt, Nat.cast_zero,
      add_zero]

theorem exists_value (m : Nat) :
    ∃ e s : Nat, m = e * twoPow f.fractionBits + s ∧ f.value m = s * 2 ^ (f.leastExponent + e) ∧
      s < twoPow (f.fractionBits + 1) ∧ (e = 0 ∨ twoPow f.fractionBits ≤ s) := by
  obtain ⟨e, hexp, hsum, hhigh, hlow⟩ := f.finiteParts_spec m
  refine ⟨e, _, hsum, ?_, hhigh, hlow.symm⟩
  unfold value
  rw [hexp]

theorem value_zero : f.value 0 = 0 := by
  have h := f.value_sum (e := 0) (s := 0) (.inl rfl) (Nat.zero_le _)
  rw [Nat.zero_mul, Nat.cast_zero, zero_mul] at h
  exact h

theorem value_lt_succ (m : Nat) : f.value m < f.value (m + 1) := by
  obtain ⟨e, s, hsum, hvalue, hhigh, hlow⟩ := f.exists_value m
  have hnext : f.value (m + 1) = (s + 1 : Nat) * 2 ^ (f.leastExponent + e) := by
    rw [hsum, Nat.add_assoc]
    exact f.value_sum (hlow.imp_right Nat.le_succ_of_le) hhigh
  rw [hvalue, hnext]
  exact mul_lt_mul_of_pos_right (Nat.cast_lt.2 (Nat.lt_succ_self s)) (zpow_pos two_pos _)

theorem strictMono_value : StrictMono f.value :=
  strictMono_nat_of_lt_succ f.value_lt_succ

/-! ## The closest pattern -/

structure Closest (x : ℚ) (m : Nat) : Prop where
  least : ∀ k, |x - f.value m| ≤ |x - f.value k|
  even : ∀ k ≠ m, |x - f.value m| = |x - f.value k| → m % 2 = 0

/-- Every number is whole in the units of an exponent, or lies below the numbers that have this
exponent. -/
theorem exists_value_eq_or_lt (e m : Nat) :
    (∃ k : Nat, f.value m = k * 2 ^ (f.leastExponent + e)) ∨
      e ≠ 0 ∧ f.value m < twoPow f.fractionBits * 2 ^ (f.leastExponent + e) := by
  obtain ⟨e', s, -, hvalue, hhigh, -⟩ := f.exists_value m
  rw [hvalue]
  rcases Nat.lt_or_ge e' e with hlt | hge
  · refine .inr ⟨by omega, ?_⟩
    calc (s : ℚ) * 2 ^ (f.leastExponent + e')
        < twoPow (f.fractionBits + 1) * 2 ^ (f.leastExponent + e') :=
          mul_lt_mul_of_pos_right (Nat.cast_lt.2 hhigh) (zpow_pos two_pos _)
      _ = twoPow f.fractionBits * 2 ^ (f.leastExponent + e' + 1) := by
          rw [twoPow_succ, zpow_add_one₀ two_ne_zero, Nat.cast_mul, Nat.cast_ofNat]
          ring
      _ ≤ twoPow f.fractionBits * 2 ^ (f.leastExponent + e) :=
          mul_le_mul_of_nonneg_left (zpow_le_zpow_right₀ one_le_two (by omega))
            (Nat.cast_nonneg _)
  · refine .inl ⟨s * twoPow (e' - e), ?_⟩
    have hexp : f.leastExponent + (e' : Int) = (e' - e : Nat) + (f.leastExponent + e) := by
      omega
    rw [hexp, zpow_add₀ two_ne_zero, ← cast_twoPow, Nat.cast_mul, mul_assoc]

/-- A number is rounded to the units of the exponent that it would have; numbers below all normal
ones are rounded to the least units. -/
theorem closest_of_roundsToEven (hbits : f.fractionBits ≠ 0) {y : ℚ} {e s : Nat}
    (hround : RoundsToEven y s) (hlow : e = 0 ∨ (twoPow f.fractionBits : ℚ) ≤ y)
    (hhigh : y ≤ twoPow (f.fractionBits + 1)) :
    f.Closest (y * 2 ^ (f.leastExponent + e)) (e * twoPow f.fractionBits + s) := by
  have hvalue := f.value_sum (hlow.imp_right hround.le_of_natCast_le)
    (hround.le_of_le_natCast hhigh)
  have hothers := f.exists_value_eq_or_lt e
  have hunit : (0 : ℚ) < 2 ^ (f.leastExponent + e) := zpow_pos two_pos _
  generalize (2 : ℚ) ^ (f.leastExponent + e) = unit at *
  have hdistance : ∀ k : Nat, |y * unit - k * unit| = |y - k| * unit := by
    intro k
    rw [← sub_mul, abs_mul, abs_of_pos hunit]
  -- What lies below the exponent is farther away than the least number that has it.
  have hbelow : ∀ m, e ≠ 0 → f.value m < twoPow f.fractionBits * unit →
      |y * unit - s * unit| < |y * unit - f.value m| := by
    intro m he hlt
    have hstart : (twoPow f.fractionBits : ℚ) ≤ y := hlow.resolve_left he
    have hclosest := mul_le_mul_of_nonneg_right (hround.closest (twoPow f.fractionBits)) hunit.le
    rw [abs_of_nonneg (sub_nonneg.2 hstart)] at hclosest
    rw [hdistance]
    refine lt_of_lt_of_le ?_ (le_abs_self _)
    linarith
  refine ⟨?_, ?_⟩
  · intro m
    rw [hvalue]
    rcases hothers m with ⟨k, hk⟩ | ⟨he, hlt⟩
    · rw [hk, hdistance, hdistance]
      exact mul_le_mul_of_nonneg_right (hround.closest k) hunit.le
    · exact (hbelow m he hlt).le
  · intro m hm htie
    rw [hvalue] at htie
    rcases hothers m with ⟨k, hk⟩ | ⟨he, hlt⟩
    · rw [hk, hdistance, hdistance] at htie
      have hne : k ≠ s := by
        rintro rfl
        exact hm (f.strictMono_value.injective (hk.trans hvalue.symm))
      have heven := hround.even_of_tie hne (mul_right_cancel₀ hunit.ne' htie)
      obtain ⟨b, hb⟩ := Nat.exists_eq_succ_of_ne_zero hbits
      rw [hb, twoPow_succ, Nat.mul_left_comm]
      omega
    · exact absurd htie (hbelow m he hlt).ne

/-- A significand is brought to another exponent by shifting it, to the right with rounding. -/
theorem roundsToEven_shifted (n : Nat) (e target : Int) :
    RoundsToEven (n * 2 ^ (e - target))
      (if target ≤ e then n * twoPow (e - target).toNat
        else shiftRightRounded n (target - e).toNat) := by
  split
  · next hle =>
    have hexact : (n : ℚ) * 2 ^ (e - target) = (n * twoPow (e - target).toNat : Nat) := by
      rw [Nat.cast_mul, cast_twoPow, Int.toNat_of_nonneg (by omega)]
    rw [hexact]
    exact roundsToEven_natCast _
  · next hgt =>
    have hquotient : (n : ℚ) * 2 ^ (e - target) = n / twoPow (target - e).toNat := by
      rw [cast_twoPow, Int.toNat_of_nonneg (by omega), div_eq_mul_inv, ← zpow_neg, neg_sub]
    rw [hquotient]
    exact roundsToEven_shiftRightRounded _ _

/-- What `nearest` computes: the closest pattern, or infinity if there is none below it. -/
theorem nearest_eq_min (hbits : f.fractionBits ≠ 0) (n : Nat) (e : Int) :
    ∃ m, f.nearest n e = min m f.infinity ∧ f.Closest (n * 2 ^ e) m := by
  by_cases hn : n = 0
  · refine ⟨0, ?_, ?_⟩
    · unfold nearest
      rw [if_pos hn, Nat.zero_min]
    · refine ⟨fun k => ?_, fun k _ _ => rfl⟩
      rw [hn, Nat.cast_zero, zero_mul, f.value_zero, sub_zero, abs_zero]
      exact abs_nonneg _
  · obtain ⟨hlow, hhigh⟩ := log2_bounds hn
    unfold nearest
    rw [if_neg hn]
    dsimp only
    generalize htarget : max (e + ((n.log2 : Int) - f.fractionBits)) f.leastExponent = target
    have hround := roundsToEven_shifted n e target
    have hleast : f.leastExponent + ((target - f.leastExponent).toNat : Int) = target := by omega
    -- The number in units of the target exponent, of which it has between `2 ^ fractionBits` and
    -- twice as many, or less at the least exponent.
    have hscaled : (n : ℚ) * 2 ^ (e - target) *
        2 ^ (f.leastExponent + ((target - f.leastExponent).toNat : Int)) = n * 2 ^ e := by
      rw [hleast, mul_assoc, ← zpow_add₀ two_ne_zero, sub_add_cancel]
    refine ⟨_, rfl, ?_⟩
    rw [← hscaled]
    refine f.closest_of_roundsToEven hbits hround ?_ ?_
    · rcases Nat.eq_zero_or_pos (target - f.leastExponent).toNat with hzero | hpos
      · exact .inl hzero
      · refine .inr ?_
        have hexp : (f.fractionBits : Int) = n.log2 + (e - target) := by omega
        rw [cast_twoPow, hexp, zpow_add₀ two_ne_zero, ← cast_twoPow]
        exact mul_le_mul_of_nonneg_right (Nat.cast_le.2 hlow) (zpow_pos two_pos _).le
    · calc (n : ℚ) * 2 ^ (e - target)
          ≤ twoPow (n.log2 + 1) * 2 ^ (e - target) :=
            mul_le_mul_of_nonneg_right (Nat.cast_le.2 hhigh.le) (zpow_pos two_pos _).le
        _ = 2 ^ (((n.log2 + 1 : Nat) : Int) + (e - target)) := by
            rw [cast_twoPow, zpow_add₀ two_ne_zero]
        _ ≤ 2 ^ ((f.fractionBits + 1 : Nat) : Int) :=
            zpow_le_zpow_right₀ one_le_two (by omega)
        _ = twoPow (f.fractionBits + 1) := (cast_twoPow _).symm

/-! ## Between neighbours -/

section
variable {f} {x : ℚ} {m p : Nat} (h : f.Closest x m)
include h

theorem Closest.le_of_le_value (hx : x ≤ f.value p) : m ≤ p := by
  by_contra hlt
  have hvalue := f.strictMono_value (Nat.not_le.1 hlt)
  have hleast := h.least p
  rw [abs_of_nonpos (by linarith), abs_of_nonpos (by linarith)] at hleast
  linarith

/-- Up to the middle of two neighbours of which the lower one is even, numbers round down. -/
theorem Closest.le_of_midpoint (hp : p % 2 = 0) (hx : 2 * x ≤ f.value p + f.value (p + 1)) :
    m ≤ p := by
  have hstep := f.value_lt_succ p
  have hle : m ≤ p + 1 := h.le_of_le_value (by linarith)
  rcases Nat.lt_or_eq_of_le hle with hlt | rfl
  · exact Nat.lt_succ_iff.1 hlt
  · -- The upper neighbour is odd, so that it is not chosen in a tie.
    exfalso
    have hleast := h.least p
    have hupper : |x - f.value (p + 1)| = f.value (p + 1) - x := by
      rw [abs_of_nonpos (by linarith)]
      ring
    have hlower : |x - f.value p| ≤ f.value (p + 1) - x := abs_le.2 ⟨by linarith, by linarith⟩
    have heven := h.even p (by omega) (le_antisymm hleast (hlower.trans hupper.ge))
    omega

theorem Closest.lt_of_midpoint (hx : f.value p + f.value (p + 1) < 2 * x) : p < m := by
  by_contra hle
  have hvalue := f.strictMono_value.monotone (Nat.not_lt.1 hle)
  have hstep := f.value_lt_succ p
  have hleast := h.least (p + 1)
  rw [abs_of_nonneg (by linarith)] at hleast
  rcases abs_cases (x - f.value (p + 1)) with ⟨habs, -⟩ | ⟨habs, -⟩ <;> rw [habs] at hleast <;>
    linarith

end

end BinaryFormat
end WireCodec
