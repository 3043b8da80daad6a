import WireCodec.Proofs.Canonical

/-!
# Values in normal form

Decoding gives values in normal form: floats with the precision of their type and fields in
declaration order.

* `Layout.Normal layout v`          `v` is in normal form;
* `Layout.normal_composite_iff`, `Layout.normal_fixedArray_iff`, `Layout.normal_variableArray_iff`,
  `Layout.normal_group_iff`         the normal forms, kind by kind;
* `Layout.WellFormed.normal_of_same`   a value that equals one in normal form is in normal form;
* `Layout.WellFormed.same_self`     a value that has an encoding equals itself;
* `Layout.WellFormed.readAll_same_iff`  a value survives encoding and decoding if and only if it is
                                    in normal form.
-/

namespace WireCodec

/-! ## Equal values -/

/-- Equal numbers have the same bits, zeros apart; and both zeros are of single precision. -/
theorem Double.isSingle_of_sameNumber {x y : Double} (h : x.sameNumber y = true)
    (hx : x.isSingle = true) : y.isSingle = true := by
  unfold sameNumber at h
  simp only [Bool.and_eq_true, Bool.or_eq_true] at h
  rcases h.2 with hbits | ⟨-, hzero⟩
  · have hxy : x = y := congrArg Double.mk (of_decide_eq_true hbits)
    rw [← hxy]
    exact hx
  · have hmod : y.bits.toNat % 0x8000000000000000 = 0 := of_decide_eq_true hzero
    have hlt := y.bits.toNat_lt
    have hcases : y.bits.toNat = 0 ∨ y.bits.toNat = 0x8000000000000000 := by omega
    rcases hcases with h0 | h1
    · have hy : y = ⟨0⟩ := congrArg Double.mk (UInt64.toNat_inj.1 h0)
      rw [hy]
      rfl
    · have hy : y = ⟨0x8000000000000000⟩ := congrArg Double.mk (UInt64.toNat_inj.1 h1)
      rw [hy]
      rfl

theorem Double.sameNumber_self {x : Double} (h : x.isNaN = false) : x.sameNumber x = true := by
  unfold sameNumber
  simp [h]

/-- The bound of single precision lies below infinity. -/
theorem Double.isNaN_eq_false_of_withinSingle {x : Double} (h : x.withinSingle = true) :
    x.isNaN = false := by
  have hlt : BinaryFormat.double.magnitude x.bits.toNat < singleLimit.bits.toNat :=
    of_decide_eq_true h
  have hlimit : singleLimit.bits.toNat < BinaryFormat.double.infinity := by decide
  exact decide_eq_false (by omega)

namespace Value

theorem sameElements_iff {vs ws : List Value} :
    sameElements vs ws = true ↔ List.Forall₂ (fun v w => v.same w = true) vs ws := by
  induction vs generalizing ws with
  | nil =>
    rw [List.forall₂_nil_left_iff]
    cases ws <;> simp [sameElements]
  | cons v vs ih =>
    cases ws with
    | nil => simp [sameElements]
    | cons w ws => rw [sameElements, Bool.and_eq_true, List.forall₂_cons, ih]

theorem sameFields_iff {as bs : List (String × Value)} :
    sameFields as bs = true ↔
      List.Forall₂ (fun a b => a.1 = b.1 ∧ a.2.same b.2 = true) as bs := by
  induction as generalizing bs with
  | nil =>
    rw [List.forall₂_nil_left_iff]
    cases bs <;> simp [sameFields]
  | cons a as ih =>
    cases bs with
    | nil => simp [sameFields]
    | cons b bs =>
      rw [sameFields, Bool.and_eq_true, Bool.and_eq_true, decide_eq_true_eq, List.forall₂_cons, ih]

theorem map_fst_of_sameFields {as bs : List (String × Value)}
    (h : List.Forall₂ (fun a b => a.1 = b.1 ∧ a.2.same b.2 = true) as bs) :
    as.map Prod.fst = bs.map Prod.fst := by
  induction h with
  | nil => rfl
  | cons hab _ ih => rw [List.map_cons, List.map_cons, hab.1, ih]

end Value

/-! ## Normal forms -/

theorem exists_right_of_mem {α β : Type} {R : α → β → Prop} {as : List α} {bs : List β}
    (h : List.Forall₂ R as bs) {a : α} (ha : a ∈ as) : ∃ b ∈ bs, R a b := by
  induction h with
  | nil => cases ha
  | @cons a' b as bs hab _ ih =>
    rcases List.mem_cons.1 ha with rfl | ha
    · exact ⟨b, List.mem_cons_self, hab⟩
    · obtain ⟨c, hc, hac⟩ := ih ha
      exact ⟨c, List.mem_cons_of_mem b hc, hac⟩

theorem exists_left_of_mem {α β : Type} {R : α → β → Prop} {as : List α} {bs : List β}
    (h : List.Forall₂ R as bs) {b : β} (hb : b ∈ bs) : ∃ a ∈ as, R a b :=
  exists_right_of_mem (R := flip R) (List.Forall₂.flip h) hb

/-- If every entry has a partner, the partners make up a list. -/
theorem exists_forall₂ {α β : Type} {R : α → β → Prop} {as : List α}
    (h : ∀ a ∈ as, ∃ b, R a b) : ∃ bs, List.Forall₂ R as bs := by
  induction as with
  | nil => exact ⟨[], .nil⟩
  | cons a as ih =>
    rw [List.forall_mem_cons] at h
    obtain ⟨b, hb⟩ := h.1
    obtain ⟨bs, hbs⟩ := ih h.2
    exact ⟨b :: bs, .cons hb hbs⟩

namespace Layout

open Encoder

/-- Floats have the precision of their type, and fields stand in declaration order. -/
def Normal (layout : Layout) (v : Value) : Prop :=
  layout.isSinglePrecise v = true ∧ layout.Arranged v v

/-- Fields stand in order if their names do and each value is arranged. -/
theorem arrangedFields_self_iff {fields : List (String × Layout)}
    (hdistinct : (fields.map Prod.fst).Nodup) {placed : List (String × Value)} :
    ArrangedFields fields placed placed ↔
      placed.map Prod.fst = fields.map Prod.fst ∧
        ∀ f ∈ fields, ∀ x, (f.1, x) ∈ placed → f.2.Arranged x x := by
  induction fields generalizing placed with
  | nil =>
    rw [ArrangedFields, List.map_nil, List.map_eq_nil_iff, and_self]
    refine ⟨fun h => ⟨h, ?_⟩, fun h => h.1⟩
    intro f hf
    cases hf
  | cons field fields ih =>
    obtain ⟨name, layout⟩ := field
    obtain ⟨hnew, hrest⟩ := List.nodup_cons.1 hdistinct
    refine ⟨?_, ?_⟩
    · intro hr
      obtain ⟨v, w, moved, placed', rfl, hplaced, hv, hfields⟩ := hr
      cases hplaced
      obtain ⟨hnames, hall⟩ := (ih hrest).1 hfields
      refine ⟨by rw [List.map_cons, List.map_cons, hnames], List.forall_mem_cons.2 ⟨?_, ?_⟩⟩
      · intro x hx
        rcases List.mem_cons.1 hx with heq | hx
        · cases heq
          exact hv
        · exact absurd (hnames ▸ List.mem_map_of_mem hx) hnew
      · intro f hf x hx
        rcases List.mem_cons.1 hx with heq | hx
        · have hname : f.1 = name := (Prod.mk.inj heq).1
          exact absurd (List.mem_map.2 ⟨f, hf, hname⟩) hnew
        · exact hall f hf x hx
    · intro hr
      obtain ⟨hnames, hall⟩ := hr
      cases placed with
      | nil => cases hnames
      | cons first placed =>
        obtain ⟨name', v⟩ := first
        obtain ⟨hname, hbehind⟩ := List.cons.inj hnames
        obtain rfl : name' = name := hname
        obtain ⟨hfirst, hothers⟩ := List.forall_mem_cons.1 hall
        refine ⟨v, v, placed, placed, rfl, rfl, hfirst v List.mem_cons_self, ?_⟩
        exact (ih hrest).2
          ⟨hbehind, fun f hf x hx => hothers f hf x (List.mem_cons_of_mem _ hx)⟩

theorem normal_composite_iff {name : String} {fields : List (String × Layout)}
    (hdistinct : (fields.map Prod.fst).Nodup) {v : Value} :
    (composite name fields).Normal v ↔
      ∃ placed, v = .composite placed ∧ placed.map Prod.fst = fields.map Prod.fst ∧
        ∀ f ∈ fields, ∀ x, (f.1, x) ∈ placed → f.2.Normal x := by
  refine ⟨?_, ?_⟩
  · intro h
    obtain ⟨hprecise, harranged⟩ := h
    obtain ⟨given, moved, placed, rfl, hplaced, hperm, hfields⟩ := harranged.of_composite
    cases hplaced
    -- The fields are a permutation of themselves with the same names, so none has moved.
    obtain rfl : given = moved := by
      refine eq_of_perm_of_names hperm ?_ ?_
      · rw [hfields.names.1, hfields.names.2]
      · rw [hfields.names.2]
        exact hdistinct
    obtain ⟨hnames, hall⟩ := (arrangedFields_self_iff hdistinct).1 hfields
    refine ⟨given, rfl, hnames, fun f hf x hx => ⟨?_, hall f hf x hx⟩⟩
    exact partsSinglePrecise_iff.1 hprecise f hf x hx
  · intro h
    obtain ⟨placed, rfl, hnames, hall⟩ := h
    refine ⟨partsSinglePrecise_iff.2 fun f hf x hx => (hall f hf x hx).1, ?_⟩
    refine ⟨placed, .refl placed, (arrangedFields_self_iff hdistinct).2 ⟨hnames, ?_⟩⟩
    exact fun f hf x hx => (hall f hf x hx).2

theorem normal_elements_iff {element : Layout} {vs : List Value} :
    (vs.all element.isSinglePrecise = true ∧ List.Forall₂ element.Arranged vs vs) ↔
      ∀ x ∈ vs, element.Normal x := by
  rw [List.all_eq_true, List.forall₂_same]
  refine ⟨?_, ?_⟩
  · rintro ⟨hprecise, harranged⟩ x hx
    exact ⟨hprecise x hx, harranged x hx⟩
  · intro h
    exact ⟨fun x hx => (h x hx).1, fun x hx => (h x hx).2⟩

/-- Arrays of either kind, whose values `make` puts together, are in normal form if their elements
are. -/
theorem normal_array_iff {layout element : Layout} {make : List Value → Value} {v : Value}
    (hform : layout.Arranged v v → ∃ vs, v = make vs)
    (hparts : ∀ vs, layout.Normal (make vs) ↔
      vs.all element.isSinglePrecise = true ∧ List.Forall₂ element.Arranged vs vs) :
    layout.Normal v ↔ ∃ vs, v = make vs ∧ ∀ x ∈ vs, element.Normal x := by
  refine ⟨fun h => ?_, ?_⟩
  · obtain ⟨vs, rfl⟩ := hform h.2
    exact ⟨vs, rfl, normal_elements_iff.1 ((hparts vs).1 h)⟩
  · rintro ⟨vs, rfl, h⟩
    exact (hparts vs).2 (normal_elements_iff.2 h)

theorem normal_fixedArray_iff {name : String} {count : Nat} {element : Layout} {v : Value} :
    (fixedArray name count element).Normal v ↔
      ∃ vs, v = .fixedArray vs ∧ ∀ x ∈ vs, element.Normal x := by
  refine normal_array_iff (fun h => ?_) fun _ => Iff.rfl
  obtain ⟨vs, _, hv, -⟩ := h.of_fixedArray
  exact ⟨vs, hv⟩

theorem normal_variableArray_iff {name : String} {max : Nat} {sizeType : Builtin}
    {element : Layout} {v : Value} :
    (variableArray name max sizeType element).Normal v ↔
      ∃ vs, v = .variableArray vs ∧ ∀ x ∈ vs, element.Normal x := by
  refine normal_array_iff (fun h => ?_) fun _ => Iff.rfl
  obtain ⟨vs, _, hv, -⟩ := h.of_variableArray
  exact ⟨vs, hv⟩

theorem normal_group_iff {name : String} {variants : List (String × Layout)}
    (hdistinct : (variants.map Prod.fst).Nodup) {v : Value} :
    (group name variants).Normal v ↔
      ∃ variant payload layout, v = .group variant payload ∧ (variant, layout) ∈ variants ∧
        layout.Normal payload := by
  refine ⟨?_, ?_⟩
  · intro h
    obtain ⟨hprecise, harranged⟩ := h
    obtain ⟨variant, x, y, layout, rfl, hy, hmem, hx⟩ := harranged.of_group
    cases hy
    have hsingle := partsSinglePrecise_iff.1 hprecise _ hmem x List.mem_cons_self
    exact ⟨variant, x, layout, rfl, hmem, hsingle, hx⟩
  · intro h
    obtain ⟨variant, payload, layout, rfl, hmem, hprecise, harranged⟩ := h
    refine ⟨partsSinglePrecise_iff.2 ?_, rfl, arrangedPart_iff.2 ⟨layout, hmem, harranged⟩⟩
    rintro ⟨variant', layout'⟩ hmem' v hv
    cases List.mem_singleton.1 hv
    obtain rfl : layout = layout' := eq_of_mem_of_mem hdistinct hmem hmem'
    exact hprecise

/-! ## Values that survive -/

theorem isSinglePrecise_number_of_same {name : String} {builtin : Builtin} {v w : Value}
    (hw : (number name builtin).isSinglePrecise w = true) (h : w.same v = true) :
    (number name builtin).isSinglePrecise v = true := by
  cases builtin with
  | float32 =>
    cases v with
    | float y =>
      cases w with
      | float x => exact Double.isSingle_of_sameNumber h hw
      | _ => cases h
    | _ => rfl
  | _ => rfl

theorem WellFormed.normal_of_same {layout : Layout} (hlayout : layout.WellFormed) {v w : Value}
    (hw : layout.Normal w) (h : w.same v = true) : layout.Normal v := by
  induction hlayout generalizing v w with
  | number name builtin => exact ⟨isSinglePrecise_number_of_same hw.1 h, rfl⟩
  | enumeration hdistinct hcount => exact ⟨rfl, rfl⟩
  | @composite name fields hdistinct hparts ih =>
    obtain ⟨placed, rfl, hnames, hall⟩ := (normal_composite_iff hdistinct).1 hw
    cases v with
    | composite given =>
      have hsame := Value.sameFields_iff.1 h
      refine (normal_composite_iff hdistinct).2 ⟨given, rfl, ?_, ?_⟩
      · rw [← Value.map_fst_of_sameFields hsame]
        exact hnames
      · intro f hf y hy
        obtain ⟨⟨name', x⟩, hx, hname, hxy⟩ := exists_left_of_mem hsame hy
        obtain rfl : name' = f.1 := hname
        exact ih f hf (hall f hf x hx) hxy
    | _ => cases h
  | @fixedArray name count element hpart ih =>
    obtain ⟨ws, rfl, hall⟩ := normal_fixedArray_iff.1 hw
    cases v with
    | fixedArray vs =>
      refine normal_fixedArray_iff.2 ⟨vs, rfl, fun y hy => ?_⟩
      obtain ⟨x, hx, hxy⟩ := exists_left_of_mem (Value.sameElements_iff.1 h) hy
      exact ih (hall x hx) hxy
    | _ => cases h
  | @variableArray name max sizeType element hfits hpart ih =>
    obtain ⟨ws, rfl, hall⟩ := normal_variableArray_iff.1 hw
    cases v with
    | variableArray vs =>
      refine normal_variableArray_iff.2 ⟨vs, rfl, fun y hy => ?_⟩
      obtain ⟨x, hx, hxy⟩ := exists_left_of_mem (Value.sameElements_iff.1 h) hy
      exact ih (hall x hx) hxy
    | _ => cases h
  | @group name variants hdistinct hcount hparts ih =>
    obtain ⟨variant, payload, layout, rfl, hmem, hpayload⟩ := (normal_group_iff hdistinct).1 hw
    cases v with
    | group variant' payload' =>
      rw [Value.same, Bool.and_eq_true, decide_eq_true_eq] at h
      obtain ⟨rfl, hsame⟩ := h
      exact (normal_group_iff hdistinct).2
        ⟨variant, payload', layout, rfl, hmem, ih _ hmem hpayload hsame⟩
    | _ => cases h

theorem same_self_of_encodes {b : Builtin} {v : Value} {bytes : List UInt8}
    (h : b.Encodes v bytes) : v.same v = true := by
  cases h with
  | signed => exact decide_eq_true rfl
  | unsigned => exact decide_eq_true rfl
  | single hwithin => exact Double.sameNumber_self (Double.isNaN_eq_false_of_withinSingle hwithin)
  | double hnumber => exact Double.sameNumber_self hnumber

/-- What is no number has no encoding, so that a value with an encoding equals itself. -/
theorem WellFormed.same_self {layout : Layout} (hlayout : layout.WellFormed) {v : Value}
    {bytes : List UInt8} (h : bytesOf (layout.pack v) = .ok bytes) : v.same v = true := by
  induction hlayout generalizing v bytes with
  | number name builtin => exact same_self_of_encodes (bytesOf_packNumber.1 h)
  | enumeration hdistinct hcount =>
    obtain ⟨i, label, rfl, -, -⟩ := (bytesOf_pack_enumeration hdistinct).1 h
    exact decide_eq_true rfl
  | @composite name fields hdistinct hparts ih =>
    obtain ⟨given, parts, rfl, hgiven, hbytes, -⟩ := bytesOf_pack_composite.1 h
    obtain ⟨hdeclared, hnodup⟩ := checkGiven_eq_ok_iff.1 hgiven
    refine Value.sameFields_iff.2 (List.forall₂_same.2 fun field hfield => ⟨rfl, ?_⟩)
    -- Each given field is declared, so it was looked up and written.
    have hname := (hdeclared field.1 (List.mem_map_of_mem hfield)).1
    obtain ⟨f, hf, hfname⟩ := List.mem_map.1 hname
    obtain ⟨part, -, v, hv, hpart⟩ := exists_right_of_mem hbytes hf
    rw [hfname, lookup_eq_some_of_mem hnodup hfield] at hv
    cases hv
    exact ih f hf hpart
  | fixedArray hpart ih =>
    obtain ⟨vs, parts, rfl, -, hbytes, -⟩ := bytesOf_pack_fixedArray.1 h
    refine Value.sameElements_iff.2 (List.forall₂_same.2 fun v hv => ?_)
    obtain ⟨part, -, hpart⟩ := exists_right_of_mem hbytes hv
    exact ih hpart
  | variableArray hfits hpart ih =>
    obtain ⟨vs, parts, rfl, -, hbytes, -⟩ := bytesOf_pack_variableArray.1 h
    refine Value.sameElements_iff.2 (List.forall₂_same.2 fun v hv => ?_)
    obtain ⟨part, -, hpart⟩ := exists_right_of_mem hbytes hv
    exact ih hpart
  | group hdistinct hcount hparts ih =>
    obtain ⟨i, variant, payload, layout, part, rfl, hi, hpart, -⟩ :=
      (bytesOf_pack_group hdistinct).1 h
    rw [Value.same, ih _ (List.mem_of_getElem? hi) hpart, decide_eq_true rfl]
    rfl

/-- A value with an encoding is decoded to an equal value exactly if it is in normal form. -/
theorem WellFormed.readAll_same_iff {layout : Layout} (hlayout : layout.WellFormed) {v : Value}
    {bytes : List UInt8} (hbytes : bytesOf (layout.pack v) = .ok bytes) (typeName : String) :
    (∃ w, Decoder.readAll typeName layout.unpack bytes = .ok w ∧ w.same v = true) ↔
      layout.Normal v := by
  refine ⟨?_, ?_⟩
  · intro h
    obtain ⟨w, hw, hsame⟩ := h
    obtain ⟨r, hread, -⟩ := Decoder.readAll_eq_ok_iff.1 hw
    obtain ⟨_, -, -, hprecise, harranged⟩ := hlayout.canonical _ w r hread
    exact hlayout.normal_of_same ⟨hprecise, harranged⟩ hsame
  · intro h
    obtain ⟨hprecise, harranged⟩ := h
    obtain ⟨w, hw, hreads⟩ := hlayout.roundTrips v bytes hbytes hprecise
    obtain rfl : v = w := hlayout.arranged_unique harranged hw
    exact ⟨v, hreads.readAll typeName, hlayout.same_self hbytes⟩

end Layout
end WireCodec
