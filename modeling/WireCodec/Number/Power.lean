/-!
# Powers of two and ten

The powers that bound integers and scale decimals.

* `twoPow_add`: exponents add up.
* `twoPow_byte`: one byte more is a factor of 256.
-/

namespace WireCodec

/-- The number of patterns of `n` bits. -/
def twoPow (n : Nat) : Nat :=
  Nat.pow 2 n

/-- The least number with more than `n` decimal digits. -/
def tenPow (n : Nat) : Nat :=
  Nat.pow 10 n

theorem twoPow_pos (n : Nat) : 0 < twoPow n :=
  Nat.pow_pos (by decide)

theorem twoPow_add (a b : Nat) : twoPow (a + b) = twoPow a * twoPow b :=
  Nat.pow_add 2 a b

theorem twoPow_byte (width : Nat) : twoPow (8 * (width + 1)) = 256 * twoPow (8 * width) := by
  rw [Nat.mul_succ, twoPow_add, Nat.mul_comm]
  rfl

end WireCodec
