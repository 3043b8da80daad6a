import Mathlib.Data.List.Perm.Basic
import WireCodec.Proofs.Constructed
import WireCodec.Proofs.Layouts

/-!
# The order of fields

Fields are given by name, so the order in which they are given decides nothing.

* `Value.Reordered v w`               `w` is `v` with the fields of its composites in another order,
                                      at every depth;
* `Layout.bytesOf_pack_composite_iff_perm`   the encoding of a composite, from the names that are
                                      given and the values under them;
* `Layout.WellFormed.pack_reordered`  values that differ in the order of fields have the same
                                      encodings;
* `Value.makeComposite_eq_ok_iff`     a constructor puts the fields that it is given in order;
* `Schema.Consistent.pack_composite_iff`   the encoding of a composite of a schema, field by field;
* `Schema.pack_makeComposite_orderless`   the order of fields never matters.
-/

namespace WireCodec

namespace Value

/-- The same value with the fields of its composites in another order, at every depth. -/
inductive Reordered : Value → Value → Prop
  | refl (v : Value) : Reordered v v
  | composite {given placed moved : List (String × Value)}
      (names : given.map Prod.fst = placed.map Prod.fst)
      (values : List.Forall₂ Reordered (given.map Prod.snd) (placed.map Prod.snd))
      (perm : placed.Perm moved) : Reordered (.composite given) (.composite moved)
  | fixedArray {vs ws : List Value} (elements : List.Forall₂ Reordered vs ws) :
      Reordered (.fixedArray vs) (.fixedArray ws)
  | variableArray {vs ws : List Value} (elements : List.Forall₂ Reordered vs ws) :
      Reordered (.variableArray vs) (.variableArray ws)
  | group {x y : Value} (variant : String) (payload : Reordered x y) :
      Reordered (.group variant x) (.group variant y)

theorem Reordered.of_perm {given moved : List (String × Value)} (h : given.Perm moved) :
    (Value.composite given).Reordered (.composite moved) :=
  .composite rfl (List.forall₂_same.2 fun x _ => .refl x) h

end Value

theorem forall₂_of_names {α : Type} {R : α → α → Prop} {as bs : List (String × α)}
    (hnames : as.map Prod.fst = bs.map Prod.fst)
    (hvalues : List.Forall₂ R (as.map Prod.snd) (bs.map Prod.snd)) :
    List.Forall₂ (fun a b => a.1 = b.1 ∧ R a.2 b.2) as bs := by
  induction as generalizing bs with
  | nil =>
    rw [List.map_nil, eq_comm, List.map_eq_nil_iff] at hnames
    rw [hnames]
    exact .nil
  | cons a as ih =>
    cases bs with
    | nil => cases hnames
    | cons b bs =>
      obtain ⟨hname, hnames⟩ := List.cons.inj hnames
      obtain ⟨hvalue, hvalues⟩ := List.forall₂_cons.1 hvalues
      exact .cons ⟨hname, hvalue⟩ (ih hnames hvalues)

/-- Entries that are related to the same things are related to the same lists of things. -/
theorem forall₂_iff_of_forall₂ {α β γ : Type} {R : α → γ → Prop} {S : β → γ → Prop} {as : List α}
    {bs : List β} (h : List.Forall₂ (fun a b => ∀ c, R a c ↔ S b c) as bs) (cs : List γ) :
    List.Forall₂ R as cs ↔ List.Forall₂ S bs cs := by
  induction h generalizing cs with
  | nil => rw [List.forall₂_nil_left_iff, List.forall₂_nil_left_iff]
  | @cons a b as bs hab _ ih =>
    rw [List.forall₂_cons_left_iff, List.forall₂_cons_left_iff]
    simp only [hab, ih]

/-- Entries whose names are some names in another order can be put into their order. -/
theorem exists_perm_of_names {given : List (String × Value)} {names : List String}
    (h : (given.map Prod.fst).Perm names) :
    ∃ placed : List (String × Value), placed.map Prod.fst = names ∧ placed.Perm given := by
  have hcomp : Relation.Comp (· = List.map Prod.fst ·) List.Perm names given := by
    rw [List.eq_map_comp_perm]
    exact h.symm
  obtain ⟨placed, hnames, hperm⟩ := hcomp
  exact ⟨placed, hnames.symm, hperm⟩

/-- Fields that include all declared names pass the check exactly if they have those names. -/
theorem checkGiven_iff_perm {typeName : String} {declared : List String}
    {given : List (String × Value)} (hdistinct : declared.Nodup)
    (hfound : ∀ name ∈ declared, name ∈ given.map Prod.fst) :
    checkGiven typeName declared [] given = .ok () ↔ (given.map Prod.fst).Perm declared := by
  rw [checkGiven_eq_ok_iff]
  refine ⟨?_, ?_⟩
  · intro ⟨hdeclared, hnodup⟩
    rw [List.perm_ext_iff_of_nodup hnodup hdistinct]
    intro name
    exact ⟨fun hname => (hdeclared name hname).1, hfound name⟩
  · intro hperm
    refine ⟨?_, hperm.nodup_iff.2 hdistinct⟩
    intro name hname
    exact ⟨hperm.mem_iff.1 hname, List.not_mem_nil⟩

namespace Layout

open Encoder

/-! ## Encodings do not depend on the order -/

/-- A composite has an encoding if the fields are the declared ones in any order.  It consists of
the encodings of the values in the order of the declaration. -/
theorem bytesOf_pack_composite_iff_perm {name : String} {fields : List (String × Layout)}
    (hdistinct : (fields.map Prod.fst).Nodup) {v : Value} {bytes : List UInt8} :
    bytesOf ((composite name fields).pack v) = .ok bytes ↔
      ∃ given parts, v = .composite given ∧
        (given.map Prod.fst).Perm (fields.map Prod.fst) ∧
        List.Forall₂ (fun f part => ∃ x, (f.1, x) ∈ given ∧ bytesOf (f.2.pack x) = .ok part)
          fields parts ∧ bytes = parts.flatten := by
  rw [bytesOf_pack_composite]
  refine exists_congr fun given => exists_congr fun parts => and_congr_right fun _ => ?_
  refine ⟨?_, ?_⟩
  · intro ⟨hcheck, hparts, hbytes⟩
    have hmem : List.Forall₂
        (fun f part => ∃ x, (f.1, x) ∈ given ∧ bytesOf (f.2.pack x) = .ok part) fields parts :=
      hparts.imp fun f part ⟨x, hx, hpart⟩ => ⟨x, mem_of_lookup_eq_some hx, hpart⟩
    refine ⟨(checkGiven_iff_perm hdistinct ?_).1 hcheck, hmem, hbytes⟩
    intro name hname
    obtain ⟨f, hf, rfl⟩ := List.mem_map.1 hname
    obtain ⟨part, -, x, hx, -⟩ := exists_right_of_mem hmem hf
    exact List.mem_map_of_mem hx
  · intro ⟨hperm, hparts, hbytes⟩
    have hnodup : (given.map Prod.fst).Nodup := hperm.nodup_iff.2 hdistinct
    have hfound : ∀ name ∈ fields.map Prod.fst, name ∈ given.map Prod.fst :=
      fun name hname => hperm.mem_iff.2 hname
    refine ⟨(checkGiven_iff_perm hdistinct hfound).2 hperm, hparts.imp ?_, hbytes⟩
    intro f part ⟨x, hx, hpart⟩
    exact ⟨x, lookup_eq_some_of_mem hnodup hx, hpart⟩

theorem exists_given_iff {given placed moved : List (String × Value)} {P : Value → Prop}
    (hnames : given.map Prod.fst = placed.map Prod.fst)
    (hvalues : List.Forall₂ Value.Reordered (given.map Prod.snd) (placed.map Prod.snd))
    (hperm : placed.Perm moved) (hsame : ∀ x y : Value, x.Reordered y → (P x ↔ P y))
    (name : String) :
    (∃ x, (name, x) ∈ given ∧ P x) ↔ ∃ y, (name, y) ∈ moved ∧ P y := by
  have hfields := forall₂_of_names hnames hvalues
  refine ⟨?_, ?_⟩
  · intro ⟨x, hx, hP⟩
    obtain ⟨⟨name', y⟩, hy, hname, hxy⟩ := exists_right_of_mem hfields hx
    cases hname
    exact ⟨y, hperm.mem_iff.1 hy, (hsame x y hxy).1 hP⟩
  · intro ⟨y, hy, hP⟩
    obtain ⟨⟨name', x⟩, hx, hname, hxy⟩ := exists_left_of_mem hfields (hperm.mem_iff.2 hy)
    cases hname
    exact ⟨x, hx, (hsame x y hxy).2 hP⟩

theorem WellFormed.pack_reordered {layout : Layout} (h : layout.WellFormed) {v w : Value}
    (hvw : v.Reordered w) {bytes : List UInt8} :
    bytesOf (layout.pack v) = .ok bytes ↔ bytesOf (layout.pack w) = .ok bytes := by
  -- The parts of the layout give the encodings of the parts of the values.
  induction h generalizing v w bytes with
  | number name b =>
    cases hvw with
    | refl => rfl
    | _ =>
      refine ⟨?_, ?_⟩
      · intro hbytes
        cases bytesOf_packNumber.1 hbytes
      · intro hbytes
        cases bytesOf_packNumber.1 hbytes
  | enumeration hdistinct hcount =>
    rw [bytesOf_pack_enumeration hdistinct, bytesOf_pack_enumeration hdistinct]
    cases hvw with
    | refl => rfl
    | _ => simp
  | @composite name fields hdistinct hformed ih =>
    rw [bytesOf_pack_composite_iff_perm hdistinct, bytesOf_pack_composite_iff_perm hdistinct]
    cases hvw with
    | refl => rfl
    | @composite given placed moved hnames hvalues hperm =>
      have hmoved : (given.map Prod.fst).Perm (moved.map Prod.fst) := hnames ▸ hperm.map Prod.fst
      have hparts : ∀ f ∈ fields, ∀ part,
          (∃ x, (f.1, x) ∈ given ∧ bytesOf (f.2.pack x) = .ok part) ↔
            ∃ y, (f.1, y) ∈ moved ∧ bytesOf (f.2.pack y) = .ok part :=
        fun f hf part => exists_given_iff hnames hvalues hperm (fun _ _ hxy => ih f hf hxy) f.1
      have hiff := forall₂_iff_of_forall₂ (List.forall₂_same.2 hparts)
      simp [hmoved.congr_left, hiff]
    | _ => simp
  | @fixedArray name count element hpart ih =>
    rw [bytesOf_pack_fixedArray, bytesOf_pack_fixedArray]
    cases hvw with
    | refl => rfl
    | @fixedArray vs ws helements =>
      have hlength := helements.length_eq
      have hiff := forall₂_iff_of_forall₂ (R := element.ElementBytes) (S := element.ElementBytes)
        (helements.imp fun _ _ hxy part => ih hxy)
      simp [hlength, hiff]
    | _ => simp
  | @variableArray name max sizeType element hfits hpart ih =>
    rw [bytesOf_pack_variableArray, bytesOf_pack_variableArray]
    cases hvw with
    | refl => rfl
    | @variableArray vs ws helements =>
      have hlength := helements.length_eq
      have hiff := forall₂_iff_of_forall₂ (R := element.ElementBytes) (S := element.ElementBytes)
        (helements.imp fun _ _ hxy part => ih hxy)
      simp [hlength, hiff]
    | _ => simp
  | @group name variants hdistinct hcount hformed ih =>
    rw [bytesOf_pack_group hdistinct, bytesOf_pack_group hdistinct]
    cases hvw with
    | refl => rfl
    | @group x y variant hxy =>
      have hpayload : ∀ (i : Nat) (layout : Layout) part, variants[i]? = some (variant, layout) →
          (bytesOf (layout.pack x) = .ok part ↔ bytesOf (layout.pack y) = .ok part) :=
        fun i layout part hi => ih _ (List.mem_of_getElem? hi) hxy
      refine ⟨?_, ?_⟩
      · intro ⟨i, _, _, layout, part, hgroup, hi, hpart, hbytes⟩
        cases hgroup
        exact ⟨i, _, _, layout, part, rfl, hi, (hpayload i layout part hi).1 hpart, hbytes⟩
      · intro ⟨i, _, _, layout, part, hgroup, hi, hpart, hbytes⟩
        cases hgroup
        exact ⟨i, _, _, layout, part, rfl, hi, (hpayload i layout part hi).2 hpart, hbytes⟩
    | _ => simp

end Layout

/-! ## Composites from fields in any order -/

theorem Schema.distinct_of_layout? {s : Schema} {typeName name : String}
    {fields : List (String × Layout)}
    (h : s.layout? typeName = some (.composite name fields)) : (fields.map Prod.fst).Nodup := by
  cases wellFormed_layout h with
  | composite hdistinct _ => exact hdistinct

namespace Value

variable {s : Schema} {typeName name : String} {fields : List (String × Layout)}
variable {given : List (String × Value)}

/-- The result holds the given fields in declaration order, provided that it has an encoding. -/
theorem makeComposite_eq_ok_iff (hlayout : s.layout? typeName = some (.composite name fields))
    {v : Value} :
    makeComposite s typeName given = .ok v ↔
      ∃ placed, v = .composite placed ∧ placed.map Prod.fst = fields.map Prod.fst ∧
        placed.Perm given ∧ ∃ bytes, s.pack typeName v = .ok bytes := by
  have hknown := requireLayout_eq_ok_iff.2 hlayout
  have hdistinct := Schema.distinct_of_layout? hlayout
  refine ⟨?_, ?_⟩
  · intro made
    obtain ⟨layout, hfound, made⟩ := except_bind_eq_ok_iff.1 made
    rw [hknown] at hfound
    cases hfound
    obtain ⟨u, hcheck, made⟩ := except_bind_eq_ok_iff.1 made
    obtain ⟨placed, hplaced, made⟩ := except_bind_eq_ok_iff.1 made
    obtain ⟨rfl, hbytes⟩ := checked_eq_ok_iff.1 made
    obtain ⟨hnames, hlookups⟩ := arrange_eq_ok_iff.1 hplaced
    obtain ⟨hdeclared, hgiven⟩ := checkGiven_eq_ok_iff.1 hcheck
    have hperm : given.Perm placed := by
      refine perm_of_lookups hgiven (hnames ▸ hdistinct) ?_ hlookups
      intro name hname
      rw [hnames]
      exact (hdeclared name hname).1
    refine ⟨placed, rfl, hnames, hperm.symm, ?_⟩
    rw [Schema.pack_of_layout? hlayout]
    exact hbytes
  · intro ⟨placed, hv, hnames, hperm, hbytes⟩
    have hgiven : (given.map Prod.fst).Perm (fields.map Prod.fst) :=
      hnames ▸ (hperm.map Prod.fst).symm
    have hcheck : checkGiven name (fields.map Prod.fst) [] given = .ok () :=
      (checkGiven_iff_perm hdistinct fun _ h => hgiven.mem_iff.2 h).2 hgiven
    have hplaced : arrange name given (fields.map Prod.fst) = .ok placed := by
      refine arrange_eq_ok_iff.2 ⟨hnames, ?_⟩
      intro field hfield
      exact lookup_eq_some_of_mem (hgiven.nodup_iff.2 hdistinct) (hperm.mem_iff.1 hfield)
    rw [Schema.pack_of_layout? hlayout] at hbytes
    subst hv
    have hmade := checked_eq_ok_iff.2 ⟨rfl, hbytes⟩
    exact except_bind_eq_ok_iff.2 ⟨_, hknown, except_bind_eq_ok_iff.2 ⟨(), hcheck,
      except_bind_eq_ok_iff.2 ⟨placed, hplaced, hmade⟩⟩⟩

end Value

namespace Schema

variable {name version : String} {declared : List TypeDef} {s : Schema}

/-- Values that differ in the order of fields have the same encodings. -/
theorem pack_reordered {v w : Value} (h : v.Reordered w) (typeName : String)
    (bytes : List UInt8) : s.pack typeName v = .ok bytes ↔ s.pack typeName w = .ok bytes := by
  rw [pack_eq_ok_iff, pack_eq_ok_iff]
  refine exists_congr fun layout => and_congr_right fun hlayout => ?_
  exact (wellFormed_layout hlayout).pack_reordered h

theorem exists_makeComposite_iff {typeName name : String} {fields : List (String × Layout)}
    (hlayout : s.layout? typeName = some (.composite name fields))
    (given : List (String × Value)) :
    (∃ v, Value.makeComposite s typeName given = .ok v) ↔
      ∃ bytes, s.pack typeName (.composite given) = .ok bytes := by
  refine ⟨?_, ?_⟩
  · intro ⟨v, hv⟩
    obtain ⟨placed, rfl, -, hperm, bytes, hbytes⟩ := (Value.makeComposite_eq_ok_iff hlayout).1 hv
    exact ⟨bytes, (pack_reordered (.of_perm hperm) typeName bytes).1 hbytes⟩
  · intro ⟨bytes, hbytes⟩
    have hdistinct := distinct_of_layout? hlayout
    obtain ⟨given, parts, hgiven, hnames, -⟩ :=
      (Layout.bytesOf_pack_composite_iff_perm hdistinct).1 (pack_of_layout? hlayout _ ▸ hbytes)
    cases hgiven
    obtain ⟨placed, hplaced, hperm⟩ := exists_perm_of_names hnames
    have hbytes' := (pack_reordered (.of_perm hperm) typeName bytes).2 hbytes
    exact ⟨.composite placed, (Value.makeComposite_eq_ok_iff hlayout).2
      ⟨placed, rfl, hplaced, hperm, bytes, hbytes'⟩⟩

section
variable {c : Composite}

theorem Consistent.layout?_composite (h : s.Consistent) (hc : .composite c ∈ s.definitions) :
    ∃ fields, s.layout? c.name = some (.composite c.name fields) ∧
      List.Forall₂ (fun f part => part.1 = f.name ∧ s.layout? f.typeName = some part.2)
        c.fields fields := by
  have hget : s.get? c.name = some (.composite c) := h.get?_eq_some_iff.2 ⟨hc, rfl⟩
  obtain ⟨layout, hlayout, hdef⟩ := h.layout?_of_get? hget
  obtain ⟨fields, hfields, rfl⟩ := Option.map_eq_some_iff.1 hdef
  exact ⟨fields, hlayout, Layout.ofFields?_eq_some hfields⟩

/-- The encoding of a composite is made of the encodings of its fields, in declaration order. -/
theorem Consistent.pack_composite_iff (h : s.Consistent) (hc : .composite c ∈ s.definitions)
    {v : Value} {bytes : List UInt8} :
    s.pack c.name v = .ok bytes ↔
      ∃ given parts, v = .composite given ∧
        (given.map Prod.fst).Perm (fieldNames c.fields) ∧
        List.Forall₂ (fun f part => ∃ x, (f.name, x) ∈ given ∧ s.pack f.typeName x = .ok part)
          c.fields parts ∧ bytes = parts.flatten := by
  obtain ⟨fields, hlayout, hfields⟩ := h.layout?_composite hc
  have hnames := Layout.map_fst_eq_fieldNames hfields
  rw [pack_of_layout? hlayout,
    Layout.bytesOf_pack_composite_iff_perm (distinct_of_layout? hlayout), hnames]
  refine exists_congr fun given => exists_congr fun parts => ?_
  have hparts : List.Forall₂ (fun f field => ∀ part : List UInt8,
      (∃ x, (f.name, x) ∈ given ∧ s.pack f.typeName x = .ok part) ↔
        ∃ x, (field.1, x) ∈ given ∧ Encoder.bytesOf (field.2.pack x) = .ok part)
      c.fields fields := by
    refine hfields.imp fun f field ⟨hname, hfield⟩ part => ?_
    simp only [hname, pack_of_layout? hfield]
  rw [forall₂_iff_of_forall₂ hparts]

theorem Consistent.exists_pack_composite_iff (h : s.Consistent)
    (hc : .composite c ∈ s.definitions) (given : List (String × Value)) :
    (∃ bytes, s.pack c.name (.composite given) = .ok bytes) ↔
      (given.map Prod.fst).Perm (fieldNames c.fields) ∧
        ∀ f ∈ c.fields, ∀ x, (f.name, x) ∈ given → ∃ part, s.pack f.typeName x = .ok part := by
  refine ⟨?_, ?_⟩
  · intro ⟨bytes, hbytes⟩
    obtain ⟨_, parts, hgiven, hnames, hparts, -⟩ := (h.pack_composite_iff hc).1 hbytes
    cases hgiven
    refine ⟨hnames, ?_⟩
    intro f hf x hx
    obtain ⟨part, -, y, hy, hpart⟩ := exists_right_of_mem hparts hf
    have hxy : x = y := eq_of_mem_of_mem (hnames.nodup_iff.2 c.distinct) hx hy
    exact ⟨part, hxy ▸ hpart⟩
  · intro ⟨hnames, hvalues⟩
    have heach : ∀ f ∈ c.fields, ∃ part x, (f.name, x) ∈ given ∧
        s.pack f.typeName x = .ok part := by
      intro f hf
      have hname : f.name ∈ given.map Prod.fst := hnames.mem_iff.2 (List.mem_map_of_mem hf)
      obtain ⟨⟨_, x⟩, hx, rfl⟩ := List.mem_map.1 hname
      obtain ⟨part, hpart⟩ := hvalues f hf x hx
      exact ⟨part, x, hx, hpart⟩
    obtain ⟨parts, hparts⟩ := exists_forall₂ heach
    exact ⟨parts.flatten, (h.pack_composite_iff hc).2 ⟨given, parts, rfl, hnames, hparts, rfl⟩⟩

end

/-- The order of fields never matters.  Values that differ only in it have the same encodings.  The
constructor of composites accepts the declared fields in any order, each with a value that has an
encoding, and returns the same composite for all orders: the given fields in declaration order,
whose encoding is that of one field after another. -/
theorem pack_makeComposite_orderless (h : build name version declared = .ok s) :
    (∀ typeName v w, v.Reordered w → ∀ bytes,
      s.pack typeName v = .ok bytes ↔ s.pack typeName w = .ok bytes) ∧
    ∀ c, .composite c ∈ s.definitions → ∀ given,
      ((∃ v, Value.makeComposite s c.name given = .ok v) ↔
        (given.map Prod.fst).Perm (fieldNames c.fields) ∧
          ∀ f ∈ c.fields, ∀ x, (f.name, x) ∈ given → ∃ part, s.pack f.typeName x = .ok part) ∧
      ∀ v, Value.makeComposite s c.name given = .ok v →
        (∀ given', given'.Perm given → Value.makeComposite s c.name given' = .ok v) ∧
        ∃ placed parts, v = .composite placed ∧ placed.Perm given ∧
          placed.map Prod.fst = fieldNames c.fields ∧
          List.Forall₂ (fun f part => ∃ x, (f.name, x) ∈ given ∧ s.pack f.typeName x = .ok part)
            c.fields parts ∧
          s.pack c.name v = .ok parts.flatten := by
  have hs := consistent_of_build h
  refine ⟨fun typeName v w hvw bytes => pack_reordered hvw typeName bytes, ?_⟩
  intro c hc given
  obtain ⟨fields, hlayout, hfields⟩ := hs.layout?_composite hc
  refine ⟨?_, ?_⟩
  · rw [exists_makeComposite_iff hlayout, hs.exists_pack_composite_iff hc]
  · intro v hv
    obtain ⟨placed, hplaced, hnames, hperm, bytes, hbytes⟩ :=
      (Value.makeComposite_eq_ok_iff hlayout).1 hv
    refine ⟨?_, ?_⟩
    · intro given' hgiven
      exact (Value.makeComposite_eq_ok_iff hlayout).2
        ⟨placed, hplaced, hnames, hperm.trans hgiven.symm, bytes, hbytes⟩
    · obtain ⟨_, parts, hv', -, hparts, rfl⟩ := (hs.pack_composite_iff hc).1 hbytes
      rw [hplaced] at hv'
      cases hv'
      refine ⟨placed, parts, hplaced, hperm, ?_, ?_, hbytes⟩
      · rw [hnames, Layout.map_fst_eq_fieldNames hfields]
      · exact hparts.imp fun f part ⟨x, hx, hpart⟩ => ⟨x, hperm.mem_iff.1 hx, hpart⟩

end Schema

def Sample.Lab.orderedLog : Value :=
  .composite [("samples", .variableArray [.composite sampleFields.reverse]),
    ("offset", .integer (-2))]

theorem Sample.Lab.reordered_log : log.Reordered orderedLog := by
  have hsample : (Value.composite sampleFields).Reordered (.composite sampleFields.reverse) :=
    .of_perm sampleFields.reverse_perm.symm
  have hsamples := Value.Reordered.variableArray (.cons hsample .nil)
  refine .composite ?_ ?_ (.swap _ _ [])
  · rfl
  · exact .cons (.refl _) (.cons hsamples .nil)

namespace Schema

open Sample

theorem pack_makeComposite_orderless_log :
    ∃ s v, Lab.schema = .ok s ∧ s.pack "log" Lab.orderedLog = .ok Lab.logBytes ∧
      Value.makeComposite s "sample" Lab.sampleFields = .ok v ∧
      Value.makeComposite s "sample" Lab.sampleFields.reverse = .ok v := by
  have hrun : Lab.schema.map (fun s =>
      (s.pack "log" Lab.log, (Value.makeComposite s "sample" Lab.sampleFields).isOk)) =
        .ok (.ok Lab.logBytes, true) := by
    rfl
  obtain ⟨s, hs, hpair⟩ := exists_of_map_eq_ok hrun
  obtain ⟨hpack, hmade⟩ := Prod.mk.inj hpair
  obtain ⟨hencodings, hcomposites⟩ := pack_makeComposite_orderless hs
  obtain ⟨-, -, -, -, hdeclared, -⟩ := build_eq_ok_iff.1 hs
  have hmem : ∀ d ∈ Lab.definitions, d ∈ s.definitions :=
    fun d hd => List.mem_append_right builtins (hdeclared ▸ hd)
  cases hv : Value.makeComposite s "sample" Lab.sampleFields with
  | error e =>
    rw [hv] at hmade
    cases hmade
  | ok v =>
    obtain ⟨-, hresult⟩ := hcomposites _ (hmem _ List.mem_cons_self) Lab.sampleFields
    have hreversed := (hresult v hv).1 Lab.sampleFields.reverse (List.reverse_perm _)
    exact ⟨s, v, hs, (hencodings "log" _ _ Lab.reordered_log _).1 hpack, hv, hreversed⟩

end Schema
end WireCodec
