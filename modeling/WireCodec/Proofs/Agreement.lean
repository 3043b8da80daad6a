import WireCodec.Proofs.Packing
import WireCodec.Typed.Number

/-!
# Codecs of types against layouts

A type with a codec of its own agrees with a layout, under a map to dynamic values, if both read
and write alike: the same bytes, the same faults at the same places.

* `Layout.Agrees layout toValue`     reading and writing are the same functions;
* `Layout.agrees_signed`, `Layout.agrees_unsigned`   integers;
* `Layout.Agrees.repeated`, `Layout.Agrees.forM`     elements one after the other;
* `Schema.AgreesWith s typeName toValue`   the results for whole byte strings correspond;
* `Layout.Agrees.agreesWith`         agreement with the layout of a type of a schema.
-/

namespace WireCodec

namespace Decoder

variable {α β : Type}

/-- What follows an unsigned integer only matters for integers of the width. -/
theorem readUInt_bind_congr {width : Nat} {f g : Nat → Decoder β}
    (h : ∀ n, n < twoPow (8 * width) → f n = g n) :
    (readUInt width >>= f) = (readUInt width >>= g) := by
  funext r
  show EStateM.bind (readUInt width) f r = EStateM.bind (readUInt width) g r
  unfold EStateM.bind
  cases hread : readUInt width r with
  | error e r' => rfl
  | ok n r' =>
    show f n r' = g n r'
    rw [h n (readUInt_eq_ok hread).1]

theorem repeated_bind_pure (count : Nat) (decode : Decoder α) (f : α → β) :
    repeated count (decode >>= fun a => pure (f a)) =
      (repeated count decode >>= fun xs => pure (xs.map f)) := by
  induction count with
  | zero => rfl
  | succ count ih =>
    rw [repeated_succ, repeated_succ, ih]
    simp only [bind_assoc, pure_bind, List.map_cons]

theorem exactly_of_ok {count : Nat} {decode : Decoder α} {xs : List α} {r r' : Reader}
    (h : repeated count decode r = .ok xs r') :
    exactly count decode r = .ok ⟨xs, length_repeated h⟩ r' := by
  unfold exactly
  split
  · next ys r'' hrun =>
    obtain ⟨rfl, rfl⟩ := EStateM.Result.ok.inj (hrun.symm.trans h)
    rfl
  · next e r'' hrun => cases hrun.symm.trans h

theorem exactly_of_error {count : Nat} {decode : Decoder α} {e : WireError} {r r' : Reader}
    (h : repeated count decode r = .error e r') : exactly count decode r = .error e r' := by
  unfold exactly
  split
  · next xs r'' hrun => cases hrun.symm.trans h
  · next e' r'' hrun =>
    obtain ⟨rfl, rfl⟩ := EStateM.Result.error.inj (hrun.symm.trans h)
    rfl

/-- Entries whose number is known are read as other entries are. -/
theorem exactly_bind {count : Nat} {decode : Decoder α} {next : List α → Decoder β} :
    (exactly count decode >>= fun xs => next xs.1) = (repeated count decode >>= next) := by
  funext r
  show EStateM.bind (exactly count decode) (fun xs => next xs.1) r =
    EStateM.bind (repeated count decode) next r
  unfold EStateM.bind
  cases hrun : repeated count decode r with
  | ok xs r' => rw [exactly_of_ok hrun]
  | error e r' => rw [exactly_of_error hrun]

end Decoder

namespace Layout

variable {α : Type} [Codec α] {element : Layout} {toValue : α → Value}

/-- The layout reads and writes the values of a type as the codec of the type does. -/
structure Agrees (layout : Layout) (toValue : α → Value) : Prop where
  unpack : layout.unpack = (Codec.decode >>= fun a => pure (toValue a))
  pack : ∀ a, layout.pack (toValue a) = Codec.encode a

theorem Agrees.repeated (h : element.Agrees toValue) (count : Nat) :
    Decoder.repeated count element.unpack =
      (Decoder.repeated count Codec.decode >>= fun xs => pure (xs.map toValue)) := by
  rw [h.unpack, Decoder.repeated_bind_pure]

theorem Agrees.forM (h : element.Agrees toValue) (xs : List α) :
    (xs.map toValue).forM element.pack = xs.forM Codec.encode := by
  induction xs with
  | nil => rfl
  | cons x xs ih =>
    show (element.pack (toValue x) >>= fun _ => (xs.map toValue).forM element.pack) =
      (Codec.encode x >>= fun _ => xs.forM Codec.encode)
    rw [h.pack, ih]

/-! ## Integers -/

theorem packInteger_of_range {typeName : String} {width : Nat} {low high v : Int}
    (h : low ≤ v ∧ v ≤ high) :
    packInteger typeName width (low, high) v = Encoder.writeInt width v := by
  unfold packInteger
  rw [if_pos h]

theorem agrees_signed {b : Builtin} {toInt : α → Int} {ofInt : Int → α} (name : String)
    (hkind : b.numeric = .signed)
    (hencode : ∀ a : α, Codec.encode a = Encoder.writeInt b.byteLength (toInt a))
    (hdecode : Codec.decode = (Decoder.readInt b.byteLength >>= fun v => pure (ofInt v)))
    (hrange : ∀ a, -(twoPow (8 * b.byteLength - 1) : Int) ≤ toInt a ∧
      toInt a < twoPow (8 * b.byteLength - 1))
    (hof : ∀ v, -(twoPow (8 * b.byteLength - 1) : Int) ≤ v →
      v < twoPow (8 * b.byteLength - 1) → toInt (ofInt v) = v) :
    (number name b).Agrees (fun a : α => .integer (toInt a)) where
  unpack := by
    have hread : (Decoder.readInt b.byteLength : Decoder Int) =
        (Decoder.readUInt b.byteLength >>= fun n =>
          pure (LittleEndian.toInt b.byteLength n)) := rfl
    rw [Layout.unpack, unpackNumber_signed hkind, hdecode, hread]
    simp only [bind_assoc, pure_bind]
    refine Decoder.readUInt_bind_congr fun n hn => ?_
    obtain ⟨hlow, hhigh⟩ := LittleEndian.toInt_bounds b.byteLength_pos n
    rw [hof _ hlow hhigh]
  pack a := by
    obtain ⟨hlow, hhigh⟩ := hrange a
    rw [Layout.pack, packNumber_signed hkind, hencode]
    exact packInteger_of_range ⟨hlow, by omega⟩

theorem agrees_unsigned {b : Builtin} {toNat : α → Nat} {ofNat : Nat → α} (name : String)
    (hkind : b.numeric = .unsigned)
    (hencode : ∀ a : α, Codec.encode a = Encoder.writeUInt b.byteLength (toNat a))
    (hdecode : Codec.decode = (Decoder.readUInt b.byteLength >>= fun n => pure (ofNat n)))
    (hrange : ∀ a, toNat a < twoPow (8 * b.byteLength))
    (hof : ∀ n, n < twoPow (8 * b.byteLength) → toNat (ofNat n) = n) :
    (number name b).Agrees (fun a : α => .integer (toNat a)) where
  unpack := by
    rw [Layout.unpack, unpackNumber_unsigned hkind, hdecode]
    simp only [bind_assoc, pure_bind]
    refine Decoder.readUInt_bind_congr fun n hn => ?_
    rw [hof n hn]
  pack a := by
    have hlt := hrange a
    rw [Layout.pack, packNumber_unsigned hkind, hencode,
      packInteger_of_range ⟨Int.natCast_nonneg _, by omega⟩]
    unfold Encoder.writeInt
    rw [LittleEndian.ofInt_natCast hlt]

theorem agrees_int32 (name : String) :
    (number name .int32).Agrees (fun n : Int32 => .integer n.toInt) := by
  refine agrees_signed name rfl (fun _ => rfl) rfl ?_ ?_
  · intro n
    exact ⟨n.le_toInt, n.toInt_lt⟩
  · intro v hlow hhigh
    exact Int32.toInt_ofInt_of_le hlow hhigh

theorem agrees_uint64 (name : String) :
    (number name .uint64).Agrees (fun n : UInt64 => .integer n.toNat) := by
  refine agrees_unsigned name rfl (fun _ => rfl) rfl ?_ ?_
  · intro n
    exact n.toNat_lt
  · intro n hn
    exact UInt64.toNat_ofNat_of_lt' hn

/-! ## Lists -/

/-- A type of lists of bounded length, whose codec writes the length as a word in front. -/
theorem Agrees.boundedList {β ω : Type} [Codec β] [Codec ω] {name : String} {max : Nat}
    {sizeType : Builtin} {items : β → List α} {make : (xs : List α) → xs.length ≤ max → β}
    {toNat : ω → Nat} {ofNat : Nat → ω} (h : element.Agrees toValue)
    (hitems : ∀ xs hxs, items (make xs hxs) = xs) (hbounded : ∀ b, (items b).length ≤ max)
    (hfits : max < twoPow (8 * sizeType.byteLength))
    (hof : ∀ n, n < twoPow (8 * sizeType.byteLength) → toNat (ofNat n) = n)
    (hwrite : ∀ n : ω, Codec.encode n = Encoder.writeUInt sizeType.byteLength (toNat n))
    (hread : (Codec.decode : Decoder ω) =
      (Decoder.readUInt sizeType.byteLength >>= fun n => pure (ofNat n)))
    (hencode : ∀ b, Codec.encode b =
      (Codec.encode (ofNat (items b).length) >>= fun _ => (items b).forM Codec.encode))
    (hdecode : Codec.decode = (Codec.decode >>= fun length : ω =>
      if hl : toNat length ≤ max then
        Decoder.exactly (toNat length) Codec.decode >>= fun xs =>
          pure (make xs.1 (Nat.le_trans (Nat.le_of_eq xs.2) hl))
      else throw (.length name (toNat length) max))) :
    (variableArray name max sizeType element).Agrees
      (fun b : β => .variableArray ((items b).map toValue)) where
  unpack := by
    rw [Layout.unpack, hdecode, hread]
    simp only [bind_assoc, pure_bind]
    refine Decoder.readUInt_bind_congr fun n hn => ?_
    rw [hof n hn]
    by_cases hmax : n ≤ max
    · rw [if_pos hmax, dif_pos hmax, h.repeated]
      simp only [bind_assoc, pure_bind, hitems]
      exact Decoder.exactly_bind.symm
    · rw [if_neg hmax, dif_neg hmax]
      rfl
  pack b := by
    have hlength : ((items b).map toValue).length = (items b).length := List.length_map _
    have hlt := Nat.lt_of_le_of_lt (hbounded b) hfits
    rw [Layout.pack, hlength, if_pos (hbounded b), h.forM, hencode, hwrite, hof _ hlt]

end Layout

/-! ## Whole byte strings -/

/-- The same fault; of bytes that are left, the same number. -/
def WireError.Alike : WireError → WireError → Prop
  | trailingBytes _ n, trailingBytes _ m => n = m
  | e, e' => e = e'

theorem WireError.Alike.refl (e : WireError) : e.Alike e := by
  cases e <;> rfl

/-- Both are results, of values that correspond, or both are faults, and these are alike. -/
inductive Corresponds {α : Type} (toValue : α → Value) :
    Except WireError Value → Except WireError α → Prop
  | ok (a : α) : Corresponds toValue (.ok (toValue a)) (.ok a)
  | error {e e' : WireError} (alike : e.Alike e') : Corresponds toValue (.error e) (.error e')

theorem corresponds_readAll {α : Type} (toValue : α → Value) (typeName typeName' : String)
    (decode : Decoder α) (bytes : List UInt8) :
    Corresponds toValue
      (Decoder.readAll typeName (decode >>= fun a => pure (toValue a)) bytes)
      (Decoder.readAll typeName' decode bytes) := by
  have hbind : ∀ r, (decode >>= fun a => pure (toValue a)) r =
      match decode r with
      | .ok a r' => .ok (toValue a) r'
      | .error e r' => .error e r' := by
    intro r
    show EStateM.bind decode (fun a => pure (toValue a)) r = _
    unfold EStateM.bind
    cases decode r <;> rfl
  unfold Decoder.readAll
  rw [hbind]
  cases decode (Reader.ofBytes bytes) with
  | error e r => exact .error (.refl e)
  | ok a r =>
    show Corresponds toValue (if r.remaining = 0 then _ else _) (if r.remaining = 0 then _ else _)
    by_cases hr : r.remaining = 0
    · rw [if_pos hr, if_pos hr]
      exact .ok a
    · rw [if_neg hr, if_neg hr]
      exact .error rfl

/-- On every byte string the type of the schema and the codec have corresponding results, and
corresponding values have the same encoding. -/
def Schema.AgreesWith {α : Type} [Codec α] (s : Schema) (typeName : String)
    (toValue : α → Value) : Prop :=
  (∀ bytes, Corresponds toValue (s.unpack typeName bytes) (Codec.unpack α bytes)) ∧
    ∀ a, Codec.pack a = s.pack typeName (toValue a)

theorem Layout.Agrees.agreesWith {α : Type} [Codec α] {toValue : α → Value} {layout : Layout}
    (h : layout.Agrees toValue) {s : Schema} {typeName : String}
    (hlayout : s.layout? typeName = some layout) : s.AgreesWith typeName toValue := by
  refine ⟨?_, ?_⟩
  · intro bytes
    unfold Schema.unpack Codec.unpack
    rw [Schema.unpackFrom_of_layout? hlayout, h.unpack]
    exact corresponds_readAll toValue typeName _ Codec.decode bytes
  · intro a
    unfold Schema.pack Codec.pack
    rw [Schema.packInto_of_layout? hlayout, h.pack]

end WireCodec
