import WireCodec.Number.Power

/-!
# Little-endian integers

`toBytes width n` writes the low `8 * width` bits of `n`, the lowest byte first.

* `length_toBytes`: it writes `width` bytes.
* `ofBytes_toBytes`: reading them gives `n` modulo `twoPow (8 * width)`.
* `toBytes_ofBytes`: writing what was read gives the bytes back.
-/

namespace WireCodec.LittleEndian

def toBytes : (width n : Nat) → List UInt8
  | 0, _ => []
  | width + 1, n => UInt8.ofNat n :: toBytes width (n / 256)

def ofBytes : List UInt8 → Nat
  | [] => 0
  | b :: bs => b.toNat + 256 * ofBytes bs

/-- The bits of `v` in two's complement, as a natural number. -/
def ofInt (width : Nat) (v : Int) : Nat :=
  (v % twoPow (8 * width)).toNat

/-- The integer that `n` stands for in two's complement of `8 * width` bits. -/
def toInt (width n : Nat) : Int :=
  Int.bmod n (twoPow (8 * width))

@[simp]
theorem length_toBytes (width n : Nat) : (toBytes width n).length = width := by
  induction width generalizing n with
  | zero => rfl
  | succ width ih => simp [toBytes, ih]

theorem ofBytes_toBytes (width n : Nat) :
    ofBytes (toBytes width n) = n % twoPow (8 * width) := by
  induction width generalizing n with
  | zero => rw [toBytes, ofBytes, show twoPow (8 * 0) = 1 from rfl, Nat.mod_one]
  | succ width ih =>
    rw [toBytes, ofBytes, ih, twoPow_byte, Nat.mod_mul]
    simp [UInt8.toNat_ofNat']

theorem ofBytes_lt (bs : List UInt8) : ofBytes bs < twoPow (8 * bs.length) := by
  induction bs with
  | nil => exact twoPow_pos 0
  | cons b bs ih =>
    have hb := b.toNat_lt
    rw [ofBytes, List.length_cons, twoPow_byte]
    omega

theorem toBytes_ofBytes (bs : List UInt8) : toBytes bs.length (ofBytes bs) = bs := by
  induction bs with
  | nil => rfl
  | cons b bs ih =>
    have hb := b.toNat_lt
    have hlow : UInt8.ofNat (b.toNat + 256 * ofBytes bs) = b := by
      apply UInt8.toNat_inj.1
      rw [UInt8.toNat_ofNat']
      omega
    have hhigh : (b.toNat + 256 * ofBytes bs) / 256 = ofBytes bs := by omega
    rw [List.length_cons, ofBytes, toBytes, hlow, hhigh, ih]

end WireCodec.LittleEndian
