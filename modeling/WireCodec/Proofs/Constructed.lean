import WireCodec.Proofs.Normal
import WireCodec.Value.Construct

/-!
# Values from checked constructors

A constructor brings what it makes into normal form, but takes the parts it is given as they are.

* `Value.Constructed s typeName v`   `v` was returned by one of the constructors;
* `Layout.PartsNormal layout v`      the parts of `v` are in normal form;
* `Layout.Finished layout v`         `v` has an encoding, and only its parts can keep it from being
                                     in normal form;
* `Value.Constructed.finished`       so it is with every value from a constructor;
* `Value.Constructed.unpack_same_iff`   such a value survives encoding and decoding if and only if
                                     its parts are in normal form.
-/

namespace WireCodec

namespace Layout

/-- The fields, elements or payload of a value are in normal form.  Numbers and labels have no
parts. -/
def PartsNormal : Layout → Value → Prop
  | composite _ fields, .composite given =>
    ∀ f ∈ fields, ∀ x, (f.1, x) ∈ given → f.2.Normal x
  | fixedArray _ _ element, .fixedArray vs => ∀ x ∈ vs, element.Normal x
  | variableArray _ _ _ element, .variableArray vs => ∀ x ∈ vs, element.Normal x
  | group _ variants, .group variant payload =>
    ∀ f ∈ variants, f.1 = variant → f.2.Normal payload
  | _, _ => True

theorem WellFormed.partsNormal {layout : Layout} (hlayout : layout.WellFormed) {v : Value}
    (h : layout.Normal v) : layout.PartsNormal v := by
  cases hlayout with
  | number name builtin => exact trivial
  | enumeration hdistinct hcount => exact trivial
  | composite hdistinct hparts =>
    obtain ⟨placed, rfl, -, hall⟩ := (normal_composite_iff hdistinct).1 h
    exact hall
  | fixedArray hpart =>
    obtain ⟨vs, rfl, hall⟩ := normal_fixedArray_iff.1 h
    exact hall
  | variableArray hfits hpart =>
    obtain ⟨vs, rfl, hall⟩ := normal_variableArray_iff.1 h
    exact hall
  | group hdistinct hcount hparts =>
    obtain ⟨variant, payload, layout, rfl, hmem, hpayload⟩ := (normal_group_iff hdistinct).1 h
    rintro ⟨variant', layout'⟩ hmem' rfl
    obtain rfl : layout = layout' := eq_of_mem_of_mem hdistinct hmem hmem'
    exact hpayload

/-- A value that has an encoding and is in normal form as soon as its parts are. -/
def Finished (layout : Layout) (v : Value) : Prop :=
  (∃ bytes, Encoder.bytesOf (layout.pack v) = .ok bytes) ∧
    (layout.PartsNormal v → layout.Normal v)

/-! ## What each constructor returns -/

theorem finished_integer {layout : Layout} {n : Int}
    (h : ∃ bytes, Encoder.bytesOf (layout.pack (.integer n)) = .ok bytes) :
    layout.Finished (.integer n) := by
  refine ⟨h, fun _ => ?_⟩
  obtain ⟨bytes, hbytes⟩ := h
  cases layout with
  | number name builtin => cases builtin <;> exact ⟨rfl, rfl⟩
  | _ => cases hbytes

theorem finished_fixedArray {layout : Layout} {vs : List Value}
    (h : ∃ bytes, Encoder.bytesOf (layout.pack (.fixedArray vs)) = .ok bytes) :
    layout.Finished (.fixedArray vs) := by
  refine ⟨h, fun hparts => ?_⟩
  obtain ⟨bytes, hbytes⟩ := h
  cases layout with
  | number name builtin => cases bytesOf_packNumber.1 hbytes
  | fixedArray name count element => exact normal_fixedArray_iff.2 ⟨vs, rfl, hparts⟩
  | _ => cases hbytes

theorem finished_variableArray {layout : Layout} {vs : List Value}
    (h : ∃ bytes, Encoder.bytesOf (layout.pack (.variableArray vs)) = .ok bytes) :
    layout.Finished (.variableArray vs) := by
  refine ⟨h, fun hparts => ?_⟩
  obtain ⟨bytes, hbytes⟩ := h
  cases layout with
  | number name builtin => cases bytesOf_packNumber.1 hbytes
  | variableArray name max sizeType element =>
    exact normal_variableArray_iff.2 ⟨vs, rfl, hparts⟩
  | _ => cases hbytes

theorem finished_label {name label : String} {labels : List String}
    (hlayout : (enumeration name labels).WellFormed) (h : label ∈ labels) :
    (enumeration name labels).Finished (.label label) := by
  cases hlayout with
  | enumeration hdistinct hcount =>
    obtain ⟨i, hi⟩ := List.mem_iff_getElem?.1 h
    refine ⟨⟨_, (bytesOf_pack_enumeration hdistinct).2 ⟨i, label, rfl, hi, rfl⟩⟩, ?_⟩
    exact fun _ => ⟨rfl, rfl⟩

theorem finished_group {name variant : String} {variants : List (String × Layout)}
    {payload : Value} (hlayout : (group name variants).WellFormed)
    (h : ∃ bytes, Encoder.bytesOf ((group name variants).pack (.group variant payload)) =
      .ok bytes) : (group name variants).Finished (.group variant payload) := by
  refine ⟨h, fun hparts => ?_⟩
  obtain ⟨bytes, hbytes⟩ := h
  cases hlayout with
  | group hdistinct hcount hformed =>
    obtain ⟨i, variant', payload', layout, part, hv, hi, -, -⟩ :=
      (bytesOf_pack_group hdistinct).1 hbytes
    cases hv
    have hmem : (variant, layout) ∈ variants := List.mem_of_getElem? hi
    exact (normal_group_iff hdistinct).2
      ⟨variant, payload, layout, rfl, hmem, hparts _ hmem rfl⟩

theorem finished_composite {name : String} {fields : List (String × Layout)}
    {placed : List (String × Value)} (hlayout : (composite name fields).WellFormed)
    (hnames : placed.map Prod.fst = fields.map Prod.fst)
    (h : ∃ bytes, Encoder.bytesOf ((composite name fields).pack (.composite placed)) =
      .ok bytes) : (composite name fields).Finished (.composite placed) := by
  refine ⟨h, fun hparts => ?_⟩
  cases hlayout with
  | composite hdistinct hformed =>
    exact (normal_composite_iff hdistinct).2 ⟨placed, rfl, hnames, hparts⟩

/-- A float that was rounded for its type does not change when it is rounded again. -/
theorem finished_float {layout : Layout} {x y : Double} (hround : Value.roundFor layout x = .ok y)
    (h : ∃ bytes, Encoder.bytesOf (layout.pack (.float y)) = .ok bytes) :
    layout.Finished (.float y) := by
  refine ⟨h, fun _ => ?_⟩
  obtain ⟨bytes, hbytes⟩ := h
  cases layout with
  | number name builtin =>
    cases builtin with
    | float32 =>
      obtain ⟨u, -, hy⟩ := except_bind_eq_ok_iff.1 hround
      cases hy
      cases bytesOf_packNumber.1 hbytes with
      | single hwithin =>
        have hsame := Single.toSingle_toDouble_of_withinSingle hwithin
        exact ⟨decide_eq_true (congrArg Single.toDouble hsame), rfl⟩
    | _ => exact ⟨rfl, rfl⟩
  | _ => cases hbytes

end Layout

namespace Value

variable {s : Schema} {typeName : String} {v : Value}

theorem requireLayout_eq_ok_iff {layout : Layout} :
    s.requireLayout typeName = .ok layout ↔ s.layout? typeName = some layout := by
  unfold Schema.requireLayout
  cases s.layout? typeName with
  | none => simp
  | some found => simp

theorem checked_eq_ok_iff {layout : Layout} {w : Value} :
    checked layout v = .ok w ↔
      w = v ∧ ∃ bytes, Encoder.bytesOf (layout.pack v) = .ok bytes := by
  have hcheck := Encoder.check_eq_ok_iff (layout.appends_pack v)
  refine ⟨?_, ?_⟩
  · intro h
    obtain ⟨u, hu, hw⟩ := except_bind_eq_ok_iff.1 h
    cases hw
    exact ⟨rfl, hcheck.1 hu⟩
  · intro ⟨hw, hbytes⟩
    rw [hw]
    exact except_bind_eq_ok_iff.2 ⟨(), hcheck.2 hbytes, rfl⟩

/-- Arranged fields have the declared names in order, each with the value that was given for it. -/
theorem arrange_eq_ok_iff {given placed : List (String × Value)} {declared : List String} :
    arrange typeName given declared = .ok placed ↔
      placed.map Prod.fst = declared ∧ ∀ field ∈ placed, given.lookup field.1 = some field.2 := by
  unfold arrange
  induction declared generalizing placed with
  | nil =>
    rw [List.mapM_nil, List.map_eq_nil_iff]
    refine ⟨?_, ?_⟩
    · intro h
      cases h
      exact ⟨rfl, fun field hfield => absurd hfield List.not_mem_nil⟩
    · intro ⟨hnil, _⟩
      rw [hnil]
      rfl
  | cons name declared ih =>
    rw [List.mapM_cons, List.map_eq_cons_iff]
    refine ⟨?_, ?_⟩
    · intro h
      obtain ⟨field, hfield, h⟩ := except_bind_eq_ok_iff.1 h
      obtain ⟨rest, hrest, h⟩ := except_bind_eq_ok_iff.1 h
      cases h
      obtain ⟨hnames, hfound⟩ := ih.1 hrest
      split at hfield
      · next v hv =>
        cases hfield
        exact ⟨⟨_, rest, rfl, rfl, hnames⟩, List.forall_mem_cons.2 ⟨hv, hfound⟩⟩
      · cases hfield
    · intro ⟨⟨field, rest, hplaced, hname, hnames⟩, hfound⟩
      rw [hplaced, List.forall_mem_cons] at hfound
      rw [hname] at hfound
      refine except_bind_eq_ok_iff.2 ⟨field, ?_, ?_⟩
      · rw [hfound.1, ← hname]
      · exact except_bind_eq_ok_iff.2 ⟨rest, ih.2 ⟨hnames, hfound.2⟩, by rw [hplaced]; rfl⟩

/-- Returned by one of the constructors for the type, whatever it was given. -/
inductive Constructed (s : Schema) (typeName : String) (v : Value) : Prop
  | integer (n : Int) (made : makeInteger s typeName n = .ok v)
  | float (x : Double) (made : makeFloat s typeName x = .ok v)
  | label (label : String) (made : makeLabel s typeName label = .ok v)
  | composite (given : List (String × Value)) (made : makeComposite s typeName given = .ok v)
  | fixedArray (vs : List Value) (made : makeFixedArray s typeName vs = .ok v)
  | variableArray (vs : List Value) (made : makeVariableArray s typeName vs = .ok v)
  | group (variant : String) (payload : Value)
      (made : makeGroup s typeName variant payload = .ok v)

theorem Constructed.finished (h : v.Constructed s typeName) :
    ∃ layout, s.layout? typeName = some layout ∧ layout.Finished v := by
  cases h with
  | integer n made =>
    obtain ⟨layout, hlayout, made⟩ := except_bind_eq_ok_iff.1 made
    obtain ⟨rfl, hbytes⟩ := checked_eq_ok_iff.1 made
    exact ⟨layout, requireLayout_eq_ok_iff.1 hlayout, Layout.finished_integer hbytes⟩
  | float x made =>
    obtain ⟨layout, hlayout, made⟩ := except_bind_eq_ok_iff.1 made
    obtain ⟨y, hround, made⟩ := except_bind_eq_ok_iff.1 made
    obtain ⟨rfl, hbytes⟩ := checked_eq_ok_iff.1 made
    exact ⟨layout, requireLayout_eq_ok_iff.1 hlayout, Layout.finished_float hround hbytes⟩
  | label label made =>
    obtain ⟨layout, hlayout, made⟩ := except_bind_eq_ok_iff.1 made
    have hknown := requireLayout_eq_ok_iff.1 hlayout
    cases layout with
    | enumeration name labels =>
      dsimp only at made
      split at made
      · next hmem =>
        cases made
        exact ⟨_, hknown, Layout.finished_label (Schema.wellFormed_layout hknown) hmem⟩
      · cases made
    | _ => cases made
  | composite given made =>
    obtain ⟨layout, hlayout, made⟩ := except_bind_eq_ok_iff.1 made
    have hknown := requireLayout_eq_ok_iff.1 hlayout
    cases layout with
    | composite name fields =>
      obtain ⟨u, -, made⟩ := except_bind_eq_ok_iff.1 made
      obtain ⟨placed, hplaced, made⟩ := except_bind_eq_ok_iff.1 made
      obtain ⟨rfl, hbytes⟩ := checked_eq_ok_iff.1 made
      exact ⟨_, hknown, Layout.finished_composite (Schema.wellFormed_layout hknown)
        (arrange_eq_ok_iff.1 hplaced).1 hbytes⟩
    | _ => cases made
  | fixedArray vs made =>
    obtain ⟨layout, hlayout, made⟩ := except_bind_eq_ok_iff.1 made
    obtain ⟨rfl, hbytes⟩ := checked_eq_ok_iff.1 made
    exact ⟨layout, requireLayout_eq_ok_iff.1 hlayout, Layout.finished_fixedArray hbytes⟩
  | variableArray vs made =>
    obtain ⟨layout, hlayout, made⟩ := except_bind_eq_ok_iff.1 made
    obtain ⟨rfl, hbytes⟩ := checked_eq_ok_iff.1 made
    exact ⟨layout, requireLayout_eq_ok_iff.1 hlayout, Layout.finished_variableArray hbytes⟩
  | group variant payload made =>
    obtain ⟨layout, hlayout, made⟩ := except_bind_eq_ok_iff.1 made
    have hknown := requireLayout_eq_ok_iff.1 hlayout
    cases layout with
    | group name variants =>
      dsimp only at made
      split at made
      · obtain ⟨rfl, hbytes⟩ := checked_eq_ok_iff.1 made
        exact ⟨_, hknown, Layout.finished_group (Schema.wellFormed_layout hknown) hbytes⟩
      · cases made
    | _ => cases made

end Value

def Schema.PartsNormal (s : Schema) (typeName : String) (v : Value) : Prop :=
  ∃ layout, s.layout? typeName = some layout ∧ layout.PartsNormal v

namespace Value

/-- A value from a constructor has an encoding, and decoding that gives an equal value exactly if
the parts that the constructor was given are in normal form. -/
theorem Constructed.unpack_same_iff {s : Schema} {typeName : String} {v : Value}
    (h : v.Constructed s typeName) :
    ∃ bytes, s.pack typeName v = .ok bytes ∧
      ((∃ w, s.unpack typeName bytes = .ok w ∧ w.same v = true) ↔
        s.PartsNormal typeName v) := by
  obtain ⟨layout, hlayout, ⟨bytes, hbytes⟩, hnormal⟩ := h.finished
  have hformed : layout.WellFormed := Schema.wellFormed_layout hlayout
  refine ⟨bytes, Schema.pack_eq_ok_iff.2 ⟨layout, hlayout, hbytes⟩, ?_⟩
  unfold Schema.unpack
  rw [Schema.unpackFrom_of_layout? hlayout, hformed.readAll_same_iff hbytes typeName]
  refine ⟨?_, ?_⟩
  · intro h
    exact ⟨layout, hlayout, hformed.partsNormal h⟩
  · intro hr
    obtain ⟨layout', hlayout', hparts⟩ := hr
    rw [hlayout] at hlayout'
    cases hlayout'
    exact hnormal hparts

open Sample

theorem unpack_same_sample :
    ∃ s v bytes w, Lab.schema = .ok s ∧
      makeComposite s "sample" Lab.sampleFields = .ok v ∧
      s.pack "sample" v = .ok bytes ∧ s.unpack "sample" bytes = .ok w ∧ w.same v = true ∧
      s.PartsNormal "sample" v := by
  have hrun : Lab.schema.toOption.bind (fun s =>
      (makeComposite s "sample" Lab.sampleFields).toOption.bind fun v =>
      (s.pack "sample" v).toOption.bind fun bytes =>
      (s.unpack "sample" bytes).toOption.map fun w => w.same v) = some true := by
    decide +kernel
  obtain ⟨s, hs, hrun⟩ := Option.bind_eq_some_iff.1 hrun
  obtain ⟨v, hv, hrun⟩ := Option.bind_eq_some_iff.1 hrun
  obtain ⟨bytes, hbytes, hrun⟩ := Option.bind_eq_some_iff.1 hrun
  obtain ⟨w, hw, hsame⟩ := Option.map_eq_some_iff.1 hrun
  have hmade := eq_ok_of_toOption hv
  obtain ⟨bytes', hbytes', hiff⟩ := Constructed.unpack_same_iff (.composite _ hmade)
  rw [eq_ok_of_toOption hbytes] at hbytes'
  cases hbytes'
  have hunpack := eq_ok_of_toOption hw
  exact ⟨s, v, bytes, w, eq_ok_of_toOption hs, hmade, eq_ok_of_toOption hbytes, hunpack, hsame,
    hiff.1 ⟨w, hunpack, hsame⟩⟩

/-- A constructor of arrays takes a composite with its fields out of order as it is, so that not
every value from a constructor comes back equal. -/
theorem exists_constructed_unpack_not_same :
    ¬ ∀ s typeName v, Constructed s typeName v →
      ∃ bytes w, s.pack typeName v = .ok bytes ∧ s.unpack typeName bytes = .ok w ∧
        w.same v = true := by
  intro hall
  have hrun : Lab.schema.toOption.bind (fun s =>
      (makeVariableArray s "series" [.composite Lab.sampleFields]).toOption.bind fun v =>
      (s.pack "series" v).toOption.bind fun bytes =>
      (s.unpack "series" bytes).toOption.map fun w => w.same v) = some false := by
    decide +kernel
  obtain ⟨s, hs, hrun⟩ := Option.bind_eq_some_iff.1 hrun
  obtain ⟨v, hv, hrun⟩ := Option.bind_eq_some_iff.1 hrun
  obtain ⟨bytes, hbytes, hrun⟩ := Option.bind_eq_some_iff.1 hrun
  obtain ⟨w, hw, hsame⟩ := Option.map_eq_some_iff.1 hrun
  obtain ⟨bytes', w', hbytes', hw', hsame'⟩ :=
    hall s "series" v (.variableArray _ (eq_ok_of_toOption hv))
  rw [eq_ok_of_toOption hbytes] at hbytes'
  cases hbytes'
  rw [eq_ok_of_toOption hw] at hw'
  cases hw'
  rw [hsame] at hsame'
  cases hsame'

end Value
end WireCodec
