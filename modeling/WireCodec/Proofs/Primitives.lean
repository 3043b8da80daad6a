import Mathlib.Algebra.Order.Group.Abs
import WireCodec.Proofs.Agreement
import WireCodec.Proofs.Narrowing
import WireCodec.Proofs.Normal
import WireCodec.Proofs.Renaming

/-!
# Builtins as types

Each builtin has a type of its own numbers with a codec.  It reads and writes as a schema does: the
same bytes and values, and faults of the same kind.

* `BinaryFormat.number`, `BinaryFormat.rank_le_rank_iff`   comparing patterns is comparing numbers;
* `Double.beyondSingle_eq_not`   both ways to hold a float to the bound of single precision agree;
* `WireError.SameKind`           faults of one kind with the same numbers of bytes;
* `Layout.Matches`               reading and writing alike, up to faults of one kind;
* `Builtin.Carrier`, `Builtin.toValue`   the numbers of a builtin, and their dynamic values;
* `Builtin.codec_agrees`         the codec of each builtin agrees with every schema.
-/

namespace WireCodec

/-! ## Comparing floats -/

namespace BinaryFormat

variable {f : BinaryFormat}

/-- The number of a pattern with its sign.  An infinite one counts as the number next to the greatest
finite one. -/
def number (f : BinaryFormat) (bits : Nat) : ℚ :=
  if f.isNegative bits then -f.value (f.magnitude bits) else f.value (f.magnitude bits)

theorem value_nonneg (m : Nat) : 0 ≤ f.value m := by
  rw [← f.value_zero]
  exact f.strictMono_value.monotone (Nat.zero_le m)

theorem eq_zero_of_value_nonpos {m : Nat} (h : f.value m ≤ 0) : m = 0 := by
  rw [← f.value_zero] at h
  exact Nat.le_zero.1 (f.strictMono_value.le_iff_le.1 h)

theorem rank_le_rank_iff {a b : Nat} : f.rank a ≤ f.rank b ↔ f.number a ≤ f.number b := by
  have ha : 0 ≤ f.value (f.magnitude a) := value_nonneg _
  have hb : 0 ≤ f.value (f.magnitude b) := value_nonneg _
  have hmono : f.value (f.magnitude a) ≤ f.value (f.magnitude b) ↔ f.magnitude a ≤ f.magnitude b :=
    f.strictMono_value.le_iff_le
  have hmono' : f.value (f.magnitude b) ≤ f.value (f.magnitude a) ↔ f.magnitude b ≤ f.magnitude a :=
    f.strictMono_value.le_iff_le
  unfold rank number
  cases f.isNegative a with
  | false =>
    cases f.isNegative b with
    | false => simp [hmono]
    | true =>
      -- A number that is not negative is at most a negative one only if both are zero.
      simp only [Bool.false_eq_true, if_false, if_true]
      constructor
      · intro h
        have hzero : f.magnitude a = 0 ∧ f.magnitude b = 0 := by omega
        rw [hzero.1, hzero.2, f.value_zero, neg_zero]
      · intro h
        have hzero : f.magnitude a = 0 ∧ f.magnitude b = 0 :=
          ⟨eq_zero_of_value_nonpos (f := f) (by linarith),
            eq_zero_of_value_nonpos (f := f) (by linarith)⟩
        omega
  | true =>
    cases f.isNegative b with
    | false =>
      simp only [Bool.false_eq_true, if_false, if_true]
      exact ⟨fun _ => by linarith, fun _ => by omega⟩
    | true => simp [hmono']

end BinaryFormat

namespace Double

open BinaryFormat

variable {x y : Double}

def number (x : Double) : ℚ :=
  double.number x.bits.toNat

theorem atMost_iff : x.atMost y = true ↔
    x.isNaN = false ∧ y.isNaN = false ∧ x.number ≤ y.number := by
  unfold atMost number
  rw [← rank_le_rank_iff]
  simp [and_assoc]

theorem number_singleLimit : singleLimit.number = singleLimit.size := rfl

theorem number_negated_singleLimit : singleLimit.negated.number = -singleLimit.size := rfl

theorem abs_number (x : Double) : |x.number| = x.size := by
  have hsize : 0 ≤ x.size := value_nonneg _
  unfold number BinaryFormat.number
  split
  · rw [abs_neg]
    exact abs_of_nonneg hsize
  · exact abs_of_nonneg hsize

theorem withinSingle_iff_between : x.withinSingle = true ↔
    singleLimit.negated.number < x.number ∧ x.number < singleLimit.number := by
  rw [withinSingle_iff, ← abs_number x, number_negated_singleLimit, number_singleLimit]
  exact abs_lt

/-- What does not lie strictly between the bounds is no number, at most the lower bound or at least
the upper one. -/
theorem beyondSingle_eq_not (x : Double) : x.beyondSingle = !x.withinSingle := by
  have hlimit : singleLimit.isNaN = false ∧ singleLimit.negated.isNaN = false := ⟨rfl, rfl⟩
  cases hwithin : x.withinSingle with
  | true =>
    have hnumber := isNaN_eq_false_of_withinSingle hwithin
    obtain ⟨hlow, hhigh⟩ := withinSingle_iff_between.1 hwithin
    have hbelow : ¬ x.atMost singleLimit.negated = true := fun h =>
      not_le_of_gt hlow (atMost_iff.1 h).2.2
    have habove : ¬ singleLimit.atMost x = true := fun h =>
      not_le_of_gt hhigh (atMost_iff.1 h).2.2
    simp [beyondSingle, hnumber, hbelow, habove]
  | false =>
    cases hnumber : x.isNaN with
    | true => simp [beyondSingle, hnumber]
    | false =>
      have hout : ¬ (singleLimit.negated.number < x.number ∧ x.number < singleLimit.number) := by
        rw [← withinSingle_iff_between, hwithin]
        exact Bool.false_ne_true
      rcases not_and_or.1 hout with hlow | hhigh
      · have hbelow := atMost_iff.2 ⟨hnumber, hlimit.2, not_lt.1 hlow⟩
        simp [beyondSingle, hbelow]
      · have habove := atMost_iff.2 ⟨hlimit.1, hnumber, not_lt.1 hhigh⟩
        simp [beyondSingle, habove]

end Double

/-! ## Faults of one kind -/

/-- The same fault, or one of the same kind with the same number of bytes; the names of types and the
texts of values may differ. -/
inductive WireError.SameKind : WireError → WireError → Prop
  | same (e : WireError) : SameKind e e
  | range (typeName typeName' value value' : String) :
      SameKind (.range typeName value) (.range typeName' value')
  | trailingBytes (typeName typeName' : String) (remaining : Nat) :
      SameKind (.trailingBytes typeName remaining) (.trailingBytes typeName' remaining)

theorem WireError.SameKind.trans {e e' e'' : WireError} (h : e.SameKind e')
    (h' : e'.SameKind e'') : e.SameKind e'' := by
  cases h with
  | same => exact h'
  | range => cases h' <;> exact .range _ _ _ _
  | trailingBytes => cases h' <;> exact .trailingBytes _ _ _

theorem WireError.Alike.sameKind {e e' : WireError} (h : e.Alike e') : e'.SameKind e := by
  cases e with
  | trailingBytes typeName n =>
    cases e' with
    | trailingBytes typeName' m =>
      obtain rfl : n = m := h
      exact .trailingBytes _ _ _
    | _ => cases h
  | _ =>
    obtain rfl := (show _ = e' from h)
    exact .same _

theorem SameOutcome.trans {ε α : Type} {R : ε → ε → Prop} {x y z : Except ε α}
    (hR : ∀ {a b c}, R a b → R b c → R a c) (h : SameOutcome R x y) (h' : SameOutcome R y z) :
    SameOutcome R x z := by
  cases h with
  | ok a => exact h'
  | error h =>
    cases h' with
    | error h' => exact .error (hR h h')

theorem Corresponds.sameOutcome {α : Type} {toValue : α → Value} {x : Except WireError Value}
    {y : Except WireError α} (h : Corresponds toValue x y) :
    SameOutcome WireError.SameKind (y.map toValue) x := by
  cases h with
  | ok a => exact .ok _
  | error halike => exact .error halike.sameKind

/-! ## Codecs that match layouts -/

namespace Layout

section
variable {α : Type} [Codec α] {layout : Layout} {toValue : α → Value}

/-- The codec of a type reads and writes as a layout does, with faults of one kind. -/
structure Matches (layout : Layout) (toValue : α → Value) : Prop where
  unpack : EndsAlike WireError.SameKind (Codec.decode >>= fun a => pure (toValue a)) layout.unpack
  pack : ∀ a, EndsAlike WireError.SameKind (Codec.encode a) (layout.pack (toValue a))

theorem Agrees.matches (h : layout.Agrees toValue) : layout.Matches toValue where
  unpack := by
    rw [h.unpack]
    exact endsAlike_refl .same _
  pack a := by
    rw [h.pack]
    exact endsAlike_refl .same _

theorem Matches.sameOutcome (h : layout.Matches toValue) {s : Schema} {typeName : String}
    (hlayout : s.layout? typeName = some layout) (a : α) (bytes : List UInt8) :
    SameOutcome WireError.SameKind (Codec.pack a) (s.pack typeName (toValue a)) ∧
      SameOutcome WireError.SameKind ((Codec.unpack α bytes).map toValue)
        (s.unpack typeName bytes) := by
  unfold Codec.pack Codec.unpack Schema.pack Schema.unpack
  rw [Schema.packInto_of_layout? hlayout, Schema.unpackFrom_of_layout? hlayout]
  refine ⟨(h.pack a).bytesOf, ?_⟩
  have hnamed := corresponds_readAll toValue typeName (Codec.typeName α) Codec.decode bytes
  exact hnamed.sameOutcome.trans .trans (h.unpack.readAll .same typeName bytes)

end

/-! ## Floats -/

theorem agrees_double : (number "float64" .float64).Agrees (fun x : Double => .float x) where
  unpack := by
    have hdecode : (Codec.decode : Decoder Double) = (Decoder.readDouble >>= fun x =>
        Decoder.require x.check >>= fun _ => pure x) := rfl
    have hunpack : unpackNumber "float64" .float64 = (Decoder.readDouble >>= fun x =>
        Decoder.require x.check >>= fun _ => pure (.float x)) := rfl
    rw [Layout.unpack, hunpack, hdecode]
    simp only [bind_assoc, pure_bind]
  pack _ := by
    rw [pack_number, packNumber_double]
    rfl

theorem sameOutcome_check (name : String) (x : Single) :
    SameOutcome WireError.SameKind x.check (checkSingle name x.toDouble) := by
  unfold Single.check checkSingle
  rw [Double.beyondSingle_eq_not]
  cases x.toDouble.withinSingle with
  | true => exact .ok ()
  | false => exact .error (.range _ _ _ _)

/-- What is written behind a check only matters where the check succeeds. -/
theorem endsAlike_require_then {R : WireError → WireError → Prop} {c c' : Except WireError Unit}
    {write write' : Encoder Unit} (h : SameOutcome R c c')
    (hwrite : c' = .ok () → EndsAlike R write write') :
    EndsAlike R (Encoder.require c >>= fun _ => write) (Encoder.require c' >>= fun _ => write') := by
  cases h with
  | ok u => exact hwrite rfl
  | error he => exact endsAlike_throw he

theorem matches_single (name : String) :
    (number name .float32).Matches (fun x : Single => .float x.toDouble) where
  unpack := by
    have hdecode : (Codec.decode : Decoder Single) = (Decoder.readSingle >>= fun x =>
        Decoder.require x.check >>= fun _ => pure x) := rfl
    have hunpack : unpackNumber name .float32 = (Decoder.readSingle >>= fun x =>
        Decoder.require (checkSingle name x.toDouble) >>= fun _ => pure (.float x.toDouble)) := rfl
    rw [Layout.unpack, hunpack, hdecode]
    simp only [bind_assoc, pure_bind]
    refine (endsAlike_refl .same _).bind fun x => ?_
    exact (endsAlike_decoder_require (sameOutcome_check name x)).bind fun _ =>
      endsAlike_refl .same _
  pack x := by
    have hencode : Codec.encode x = (Encoder.require x.check >>= fun _ =>
        Encoder.writeUInt 4 x.bits.toNat) := rfl
    rw [pack_number, packNumber_single, hencode]
    refine endsAlike_require_then (sameOutcome_check name x) fun hcheck => ?_
    -- Widening and rounding give a single within the bound back.
    rw [Single.toSingle_toDouble_of_withinSingle (checkSingle_eq_ok_iff.1 hcheck)]
    exact endsAlike_refl .same _

end Layout

/-! ## Builtins -/

namespace Builtin

def Carrier : Builtin → Type
  | int8 => Int8
  | int16 => Int16
  | int32 => Int32
  | int64 => Int64
  | uint8 => UInt8
  | uint16 => UInt16
  | uint32 => UInt32
  | uint64 => UInt64
  | float32 => Single
  | float64 => Double

instance : (b : Builtin) → Codec b.Carrier
  | int8 => inferInstanceAs (Codec Int8)
  | int16 => inferInstanceAs (Codec Int16)
  | int32 => inferInstanceAs (Codec Int32)
  | int64 => inferInstanceAs (Codec Int64)
  | uint8 => inferInstanceAs (Codec UInt8)
  | uint16 => inferInstanceAs (Codec UInt16)
  | uint32 => inferInstanceAs (Codec UInt32)
  | uint64 => inferInstanceAs (Codec UInt64)
  | float32 => inferInstanceAs (Codec Single)
  | float64 => inferInstanceAs (Codec Double)

/-- A number of a builtin as a dynamic value; a single is widened. -/
def toValue : (b : Builtin) → b.Carrier → Value
  | int8 => fun n : Int8 => .integer n.toInt
  | int16 => fun n : Int16 => .integer n.toInt
  | int32 => fun n : Int32 => .integer n.toInt
  | int64 => fun n : Int64 => .integer n.toInt
  | uint8 => fun n : UInt8 => .integer n.toNat
  | uint16 => fun n : UInt16 => .integer n.toNat
  | uint32 => fun n : UInt32 => .integer n.toNat
  | uint64 => fun n : UInt64 => .integer n.toNat
  | float32 => fun x : Single => .float x.toDouble
  | float64 => fun x : Double => .float x

theorem matches_toValue (b : Builtin) : (Layout.number b.name b).Matches b.toValue := by
  cases b with
  | int8 =>
    refine (Layout.agrees_signed _ rfl (fun _ => rfl) rfl ?_ ?_).matches
    · exact fun n : Int8 => ⟨n.le_toInt, n.toInt_lt⟩
    · exact fun _ hlow hhigh => Int8.toInt_ofInt_of_le hlow hhigh
  | int16 =>
    refine (Layout.agrees_signed _ rfl (fun _ => rfl) rfl ?_ ?_).matches
    · exact fun n : Int16 => ⟨n.le_toInt, n.toInt_lt⟩
    · exact fun _ hlow hhigh => Int16.toInt_ofInt_of_le hlow hhigh
  | int32 => exact (Layout.agrees_int32 _).matches
  | int64 =>
    refine (Layout.agrees_signed _ rfl (fun _ => rfl) rfl ?_ ?_).matches
    · exact fun n : Int64 => ⟨n.le_toInt, n.toInt_lt⟩
    · exact fun _ hlow hhigh => Int64.toInt_ofInt_of_le hlow hhigh
  | uint8 =>
    refine (Layout.agrees_unsigned _ rfl (fun _ => rfl) rfl ?_ ?_).matches
    · exact fun n : UInt8 => n.toNat_lt
    · exact fun _ hn => UInt8.toNat_ofNat_of_lt' hn
  | uint16 =>
    refine (Layout.agrees_unsigned _ rfl (fun _ => rfl) rfl ?_ ?_).matches
    · exact fun n : UInt16 => n.toNat_lt
    · exact fun _ hn => UInt16.toNat_ofNat_of_lt' hn
  | uint32 =>
    refine (Layout.agrees_unsigned _ rfl (fun _ => rfl) rfl ?_ ?_).matches
    · exact fun n : UInt32 => n.toNat_lt
    · exact fun _ hn => UInt32.toNat_ofNat_of_lt' hn
  | uint64 => exact (Layout.agrees_uint64 _).matches
  | float32 => exact Layout.matches_single _
  | float64 => exact Layout.agrees_double.matches

/-- The codec of the numbers of a builtin agrees with every schema.  A number and its dynamic value
have the same encoding, if they have one; and the codec reads a number from a byte string exactly if
the schema reads its dynamic value.  Otherwise both end with faults of one kind. -/
theorem codec_agrees {name version : String} {declared : List TypeDef} {s : Schema}
    (h : Schema.build name version declared = .ok s) (b : Builtin) (x : b.Carrier)
    (bytes : List UInt8) :
    SameOutcome WireError.SameKind (Codec.pack x) (s.pack b.name (b.toValue x)) ∧
      SameOutcome WireError.SameKind ((Codec.unpack b.Carrier bytes).map b.toValue)
        (s.unpack b.name bytes) := by
  have hdefined : TypeDef.builtin b ∈ s.definitions :=
    List.mem_append_left _ (List.mem_map_of_mem b.mem_all)
  have hlayout := (Schema.consistent_of_build h).layout?_of_asBuiltin? hdefined rfl
  exact (matches_toValue b).sameOutcome hlayout x bytes

/-- The bound lies between the two greatest singles: the lower one is written, and the bytes of the
greatest one are refused. -/
theorem codec_agrees_greatest :
    ∃ s, Schema.build "pairs" "1.0.0" Sample.Pairs.definitions = .ok s ∧
      s.pack "float32" (.float ⟨0x47EFFFFFC0000000⟩) = .ok [0xFE, 0xFF, 0x7F, 0x7F] ∧
      ∃ e, s.unpack "float32" [0xFF, 0xFF, 0x7F, 0x7F] = .error e ∧
        WireError.SameKind (.range "float32" (Single.plain ⟨0x7F7FFFFF⟩)) e := by
  obtain ⟨s, hs⟩ := Sample.Pairs.exists_build
  obtain ⟨hpack, hunpack⟩ :=
    codec_agrees hs .float32 (⟨0x7F7FFFFE⟩ : Single) [0xFF, 0xFF, 0x7F, 0x7F]
  have hwritten : Codec.pack (⟨0x7F7FFFFE⟩ : Single) = .ok [0xFE, 0xFF, 0x7F, 0x7F] := by rfl
  have hrefused : (Codec.unpack Single [0xFF, 0xFF, 0x7F, 0x7F]).map (toValue .float32) =
      .error (.range "float32" (Single.plain ⟨0x7F7FFFFF⟩)) := by
    rfl
  exact ⟨s, hs, (hpack.eq_ok_iff _).1 hwritten, hunpack.eq_error hrefused⟩

end Builtin

end WireCodec
