import WireCodec.Proofs.Compositional

/-!
# What each kind of type writes

For every kind of layout, the values that have an encoding and the bytes of it.

* `lt_twoPow_tagType`     the tag type of a list of entries tells all of them apart;
* `Layout.appends_pack`   packing only appends;
* `Layout.bytesOf_pack_enumeration`, `Layout.bytesOf_pack_composite`,
  `Layout.bytesOf_pack_fixedArray`, `Layout.bytesOf_pack_variableArray`,
  `Layout.bytesOf_pack_group`   the encodings, kind by kind.
-/

namespace WireCodec

/-- The narrowest unsigned builtin that holds a number holds the smaller ones. -/
theorem lt_twoPow_tagType {count i : Nat} (hi : i < count) (hcount : count ≤ maxEntries) :
    i < twoPow (8 * (Layout.tagType count).byteLength) := by
  unfold Layout.tagType Builtin.smallestUnsigned
  split
  · show i < twoPow 8
    omega
  · split
    · show i < twoPow 16
      omega
    · split
      · show i < twoPow 32
        omega
      · show i < twoPow 64
        exact Nat.lt_of_lt_of_le hi hcount

namespace Layout

open Encoder

/-! ## Packing appends -/

theorem compositional_appends : Encoder.Compositional Encoder.Appends where
  pure := appends_pure
  throw := fun {e} _ => appends_throw e
  writeUInt := appends_writeUInt
  chain := Appends.then

theorem appends_pack (layout : Layout) (v : Value) : (layout.pack v).Appends :=
  compositional_appends.pack layout v

theorem appends_packFields (typeName : String) (given : List (String × Value))
    (fields : List (String × Layout)) : (packFields typeName given fields).Appends :=
  compositional_appends.packFields fun f _ => f.2.appends_pack

/-! ## Encodings, kind by kind -/

theorem bytesOf_pack_enumeration {name : String} {labels : List String}
    (hdistinct : labels.Nodup) {v : Value} {bytes : List UInt8} :
    bytesOf ((enumeration name labels).pack v) = .ok bytes ↔
      ∃ i label, v = .label label ∧ labels[i]? = some label ∧
        bytes = LittleEndian.toBytes (tagType labels.length).byteLength i := by
  refine ⟨?_, ?_⟩
  · intro h
    cases v with
    | label label =>
      rw [pack] at h
      split at h
      · next i hi =>
        rw [bytesOf_writeUInt] at h
        cases h
        exact ⟨i, label, rfl, getElem?_of_findIdx?_eq_some hi, rfl⟩
      · cases h
    | _ => cases h
  · intro hr
    obtain ⟨i, label, rfl, hlabel, rfl⟩ := hr
    rw [pack, findIdx?_eq_some_of_nodup hdistinct hlabel]
    exact bytesOf_writeUInt _ _

/-- The bytes of a declared field: those of the value given under its name. -/
def FieldBytes (given : List (String × Value)) (field : String × Layout) (part : List UInt8) :
    Prop :=
  ∃ v, given.lookup field.1 = some v ∧ bytesOf (field.2.pack v) = .ok part

theorem bytesOf_packFields {typeName : String} {given : List (String × Value)}
    {fields : List (String × Layout)} {bytes : List UInt8} :
    bytesOf (packFields typeName given fields) = .ok bytes ↔
      ∃ parts, List.Forall₂ (FieldBytes given) fields parts ∧ bytes = parts.flatten := by
  induction fields generalizing bytes with
  | nil =>
    rw [packFields, bytesOf_pure]
    refine ⟨?_, ?_⟩
    · intro h
      cases h
      exact ⟨[], .nil, rfl⟩
    · intro hr
      obtain ⟨parts, hparts, rfl⟩ := hr
      cases hparts
      rfl
  | cons field fields ih =>
    obtain ⟨name, layout⟩ := field
    rw [packFields]
    refine ⟨?_, ?_⟩
    · intro h
      split at h
      · next v hv =>
        obtain ⟨a, b, ha, hb, rfl⟩ := (bytesOf_then (layout.appends_pack v)
          (appends_packFields _ _ _)).1 h
        obtain ⟨parts, hparts, rfl⟩ := ih.1 hb
        exact ⟨a :: parts, .cons ⟨v, hv, ha⟩ hparts, rfl⟩
      · cases h
    · intro hr
      obtain ⟨parts, hparts, rfl⟩ := hr
      obtain ⟨a, parts, ⟨v, hv, ha⟩, hrest, rfl⟩ := List.forall₂_cons_left_iff.1 hparts
      have hv : given.lookup name = some v := hv
      rw [hv]
      refine (bytesOf_then (layout.appends_pack v)
        (appends_packFields _ _ _)).2 ?_
      exact ⟨a, parts.flatten, ha, ih.2 ⟨parts, hrest, rfl⟩, rfl⟩

theorem bytesOf_pack_composite {name : String} {fields : List (String × Layout)} {v : Value}
    {bytes : List UInt8} :
    bytesOf ((composite name fields).pack v) = .ok bytes ↔
      ∃ given parts, v = .composite given ∧
        checkGiven name (fields.map Prod.fst) [] given = .ok () ∧
        List.Forall₂ (FieldBytes given) fields parts ∧ bytes = parts.flatten := by
  have happends : ∀ given, (packFields name given fields).Appends :=
    fun given => appends_packFields name given fields
  refine ⟨?_, ?_⟩
  · intro h
    cases v with
    | composite given =>
      rw [pack, bytesOf_require_then (happends given)] at h
      obtain ⟨hgiven, hbytes⟩ := h
      obtain ⟨parts, hparts, rfl⟩ := bytesOf_packFields.1 hbytes
      exact ⟨given, parts, rfl, hgiven, hparts, rfl⟩
    | _ => cases h
  · intro hr
    obtain ⟨given, parts, rfl, hgiven, hparts, rfl⟩ := hr
    rw [pack, bytesOf_require_then (happends given)]
    exact ⟨hgiven, bytesOf_packFields.2 ⟨parts, hparts, rfl⟩⟩

def ElementBytes (element : Layout) (v : Value) (part : List UInt8) : Prop :=
  bytesOf (element.pack v) = .ok part

theorem bytesOf_pack_fixedArray {name : String} {count : Nat} {element : Layout} {v : Value}
    {bytes : List UInt8} :
    bytesOf ((fixedArray name count element).pack v) = .ok bytes ↔
      ∃ vs parts, v = .fixedArray vs ∧ vs.length = count ∧
        List.Forall₂ element.ElementBytes vs parts ∧ bytes = parts.flatten := by
  refine ⟨?_, ?_⟩
  · intro h
    cases v with
    | fixedArray vs =>
      rw [pack] at h
      split at h
      · next hlength =>
        obtain ⟨parts, hparts, rfl⟩ := (bytesOf_forM fun v _ => element.appends_pack v).1 h
        exact ⟨vs, parts, rfl, hlength, hparts, rfl⟩
      · cases h
    | _ => cases h
  · intro hr
    obtain ⟨vs, parts, rfl, hlength, hparts, rfl⟩ := hr
    rw [pack, if_pos hlength]
    exact (bytesOf_forM fun v _ => element.appends_pack v).2 ⟨parts, hparts, rfl⟩

theorem bytesOf_pack_variableArray {name : String} {max : Nat} {sizeType : Builtin}
    {element : Layout} {v : Value} {bytes : List UInt8} :
    bytesOf ((variableArray name max sizeType element).pack v) = .ok bytes ↔
      ∃ vs parts, v = .variableArray vs ∧ vs.length ≤ max ∧
        List.Forall₂ element.ElementBytes vs parts ∧
        bytes = LittleEndian.toBytes sizeType.byteLength vs.length ++ parts.flatten := by
  have happends : ∀ vs : List Value, (vs.forM element.pack).Appends :=
    fun vs => appends_forM fun v _ => element.appends_pack v
  refine ⟨?_, ?_⟩
  · intro h
    cases v with
    | variableArray vs =>
      rw [pack] at h
      split at h
      · next hlength =>
        rw [bytesOf_then (appends_writeUInt _ _) (happends vs), bytesOf_writeUInt] at h
        obtain ⟨a, b, ha, hb, rfl⟩ := h
        cases ha
        obtain ⟨parts, hparts, rfl⟩ := (bytesOf_forM fun v _ => element.appends_pack v).1 hb
        exact ⟨vs, parts, rfl, hlength, hparts, rfl⟩
      · cases h
    | _ => cases h
  · intro hr
    obtain ⟨vs, parts, rfl, hlength, hparts, rfl⟩ := hr
    rw [pack, if_pos hlength, bytesOf_then (appends_writeUInt _ _) (happends vs),
      bytesOf_writeUInt]
    have hbytes := (bytesOf_forM fun v _ => element.appends_pack v).2 ⟨parts, hparts, rfl⟩
    exact ⟨_, parts.flatten, rfl, hbytes, rfl⟩

/-- The tag of a variant is its position behind the `index` variants in front. -/
theorem bytesOf_packVariant {typeName : String} {width : Nat} {variant : String}
    {payload : Value} {index : Nat} {variants : List (String × Layout)}
    (hdistinct : (variants.map Prod.fst).Nodup) {bytes : List UInt8} :
    bytesOf (packVariant typeName width variant payload index variants) = .ok bytes ↔
      ∃ i layout part, variants[i]? = some (variant, layout) ∧
        bytesOf (layout.pack payload) = .ok part ∧
        bytes = LittleEndian.toBytes width (index + i) ++ part := by
  induction variants generalizing index with
  | nil =>
    refine ⟨(fun h => nomatch h), ?_⟩
    intro hr
    obtain ⟨i, layout, part, hi, -⟩ := hr
    cases hi
  | cons first variants ih =>
    obtain ⟨name, layout⟩ := first
    obtain ⟨hnew, hdistinct⟩ := List.nodup_cons.1 hdistinct
    rw [packVariant]
    by_cases hname : name = variant
    · subst hname
      rw [if_pos rfl, bytesOf_then (appends_writeUInt _ _) (layout.appends_pack payload),
        bytesOf_writeUInt]
      refine ⟨?_, ?_⟩
      · intro hr
        obtain ⟨a, b, ha, hb, rfl⟩ := hr
        cases ha
        exact ⟨0, layout, b, rfl, hb, rfl⟩
      · intro hr
        obtain ⟨i, layout', part, hi, hpart, rfl⟩ := hr
        cases i with
        | zero =>
          cases hi
          exact ⟨_, part, rfl, hpart, rfl⟩
        | succ i =>
          have hmem : (name, layout') ∈ variants := List.mem_of_getElem? hi
          exact absurd (List.mem_map_of_mem hmem) hnew
    · rw [if_neg hname, ih hdistinct]
      refine ⟨?_, ?_⟩
      · intro hr
        obtain ⟨i, layout', part, hi, hpart, rfl⟩ := hr
        refine ⟨i + 1, layout', part, hi, hpart, ?_⟩
        rw [Nat.add_assoc, Nat.add_comm 1 i]
      · intro hr
        obtain ⟨i, layout', part, hi, hpart, rfl⟩ := hr
        cases i with
        | zero =>
          cases hi
          exact absurd rfl hname
        | succ i =>
          refine ⟨i, layout', part, hi, hpart, ?_⟩
          rw [Nat.add_assoc, Nat.add_comm 1 i]

theorem bytesOf_pack_group {name : String} {variants : List (String × Layout)}
    (hdistinct : (variants.map Prod.fst).Nodup) {v : Value} {bytes : List UInt8} :
    bytesOf ((group name variants).pack v) = .ok bytes ↔
      ∃ i variant payload layout part, v = .group variant payload ∧
        variants[i]? = some (variant, layout) ∧ bytesOf (layout.pack payload) = .ok part ∧
        bytes = LittleEndian.toBytes (tagType variants.length).byteLength i ++ part := by
  refine ⟨?_, ?_⟩
  · intro h
    cases v with
    | group variant payload =>
      rw [pack, bytesOf_packVariant hdistinct] at h
      obtain ⟨i, layout, part, hi, hpart, rfl⟩ := h
      refine ⟨i, variant, payload, layout, part, rfl, hi, hpart, ?_⟩
      rw [Nat.zero_add]
    | _ => cases h
  · intro hr
    obtain ⟨i, variant, payload, layout, part, rfl, hi, hpart, rfl⟩ := hr
    rw [pack, bytesOf_packVariant hdistinct]
    refine ⟨i, layout, part, hi, hpart, ?_⟩
    rw [Nat.zero_add]

end Layout

/-! ## Types of a schema -/

namespace Schema

variable {s : Schema} {typeName : String}

theorem packInto_of_layout? {layout : Layout} (h : s.layout? typeName = some layout) (v : Value) :
    s.packInto typeName v = layout.pack v := by
  unfold packInto requireLayout
  rw [h]

theorem pack_of_layout? {layout : Layout} (h : s.layout? typeName = some layout) (v : Value) :
    s.pack typeName v = Encoder.bytesOf (layout.pack v) := by
  unfold pack
  rw [packInto_of_layout? h]

theorem unpackFrom_of_layout? {layout : Layout} (h : s.layout? typeName = some layout) :
    s.unpackFrom typeName = layout.unpack := by
  unfold unpackFrom requireLayout
  rw [h]

theorem pack_eq_ok_iff {v : Value} {bytes : List UInt8} :
    s.pack typeName v = .ok bytes ↔
      ∃ layout, s.layout? typeName = some layout ∧
        Encoder.bytesOf (layout.pack v) = .ok bytes := by
  cases hlayout : s.layout? typeName with
  | none =>
    unfold pack packInto requireLayout
    rw [hlayout]
    refine ⟨(fun h => nomatch h), ?_⟩
    intro hr
    obtain ⟨layout, h, -⟩ := hr
    cases h
  | some layout =>
    rw [pack_of_layout? hlayout]
    refine ⟨?_, ?_⟩
    · intro h
      exact ⟨layout, rfl, h⟩
    · intro hr
      obtain ⟨layout', h, hbytes⟩ := hr
      cases h
      exact hbytes

end Schema
end WireCodec
