import WireCodec.Proofs.RoundTrip

/-!
# Encoding undoes decoding

A decoder accepts no second spelling of a value: what it accepts is what encoding the value writes.

* `Layout.Canonical layout`          the bytes that were read are the encoding of the value read;
* `Layout.unpackFields_eq_ok`        one field after the other;
* `Layout.repeated_unpack_eq_ok`     one element after the other;
* `Layout.WellFormed.canonical`      every well-formed layout is canonical;
* `Schema.pack_unpack`               so is every type of a schema.
-/

namespace WireCodec

namespace Layout

open Encoder

/-- What was read is the encoding of the value, which is precise and has its fields in order. -/
def Canonical (layout : Layout) : Prop :=
  ∀ r v r', layout.unpack r = .ok v r' →
    ∃ bytes, r.Passes bytes r' ∧ bytesOf (layout.pack v) = .ok bytes ∧
      layout.isSinglePrecise v = true ∧ layout.Arranged v v

/-- The fields read stand in declaration order, and whoever finds them by name writes the bytes
that were read. -/
theorem unpackFields_eq_ok {fields : List (String × Layout)} {placed : List (String × Value)}
    {r r' : Reader} (hfields : ∀ f ∈ fields, f.2.Canonical)
    (h : unpackFields fields r = .ok placed r') :
    ∃ parts, r.Passes parts.flatten r' ∧ ArrangedFields fields placed placed ∧
      ∀ given, (∀ field ∈ placed, given.lookup field.1 = some field.2) →
        List.Forall₂ (FieldBytes given) fields parts ∧
          ∀ f ∈ fields, ∀ v, given.lookup f.1 = some v → f.2.isSinglePrecise v = true := by
  induction fields generalizing placed r with
  | nil =>
    rw [unpackFields] at h
    obtain ⟨rfl, rfl⟩ := Decoder.pure_eq_ok_iff.1 h
    refine ⟨[], r.passes_nil, ⟨rfl, rfl⟩, fun given _ => ⟨.nil, ?_⟩⟩
    intro f hf
    cases hf
  | cons field fields ih =>
    obtain ⟨name, layout⟩ := field
    obtain ⟨hfirst, hrest⟩ := List.forall_mem_cons.1 hfields
    rw [unpackFields] at h
    obtain ⟨v, mid, hv, h⟩ := Decoder.bind_eq_ok_iff.1 h
    obtain ⟨behind, r'', hbehind, h⟩ := Decoder.bind_eq_ok_iff.1 h
    obtain ⟨rfl, rfl⟩ := Decoder.pure_eq_ok_iff.1 h
    obtain ⟨part, hpart, hbytes, hprecise, harranged⟩ := hfirst r v mid hv
    obtain ⟨parts, hparts, hfields, hgiven⟩ := ih hrest hbehind
    refine ⟨part :: parts, hpart.trans hparts, ⟨v, v, behind, behind, rfl, rfl, harranged,
      hfields⟩, ?_⟩
    intro given hlookup
    obtain ⟨hname, hlookup⟩ := List.forall_mem_cons.1 hlookup
    obtain ⟨hwritten, hprecises⟩ := hgiven given hlookup
    refine ⟨.cons ⟨v, hname, hbytes⟩ hwritten, List.forall_mem_cons.2 ⟨?_, hprecises⟩⟩
    intro v' hv'
    have hsame : some v = some v' := hname.symm.trans hv'
    cases hsame
    exact hprecise

theorem repeated_unpack_eq_ok {element : Layout} {count : Nat} {vs : List Value} {r r' : Reader}
    (helement : element.Canonical) (h : Decoder.repeated count element.unpack r = .ok vs r') :
    ∃ parts, r.Passes parts.flatten r' ∧ List.Forall₂ element.ElementBytes vs parts ∧
      vs.all element.isSinglePrecise = true ∧ List.Forall₂ element.Arranged vs vs := by
  induction count generalizing vs r with
  | zero =>
    rw [Decoder.repeated_zero] at h
    obtain ⟨rfl, rfl⟩ := Decoder.pure_eq_ok_iff.1 h
    exact ⟨[], r.passes_nil, .nil, rfl, .nil⟩
  | succ count ih =>
    rw [Decoder.repeated_succ] at h
    obtain ⟨v, mid, hv, h⟩ := Decoder.bind_eq_ok_iff.1 h
    obtain ⟨behind, r'', hbehind, h⟩ := Decoder.bind_eq_ok_iff.1 h
    obtain ⟨rfl, rfl⟩ := Decoder.pure_eq_ok_iff.1 h
    obtain ⟨part, hpart, hbytes, hprecise, harranged⟩ := helement r v mid hv
    obtain ⟨parts, hparts, hwritten, hprecises, harrangeds⟩ := ih hbehind
    refine ⟨part :: parts, hpart.trans hparts, .cons hbytes hwritten, ?_,
      .cons harranged harrangeds⟩
    rw [List.all_cons, hprecise, hprecises]
    rfl

theorem unpackVariant_eq_ok {typeName : String} {tag i : Nat} {variants : List (String × Layout)}
    {v : Value} {r r' : Reader} (h : unpackVariant typeName tag i variants r = .ok v r') :
    ∃ variant layout payload, variants[i]? = some (variant, layout) ∧
      layout.unpack r = .ok payload r' ∧ v = .group variant payload := by
  induction variants generalizing i with
  | nil =>
    rw [unpackVariant] at h
    cases h
  | cons first variants ih =>
    cases i with
    | zero =>
      rw [unpackVariant] at h
      obtain ⟨payload, r'', hpayload, h⟩ := Decoder.bind_eq_ok_iff.1 h
      obtain ⟨rfl, rfl⟩ := Decoder.pure_eq_ok_iff.1 h
      exact ⟨first.1, first.2, payload, rfl, hpayload, rfl⟩
    | succ i =>
      rw [unpackVariant] at h
      exact ih h

theorem checkGiven_of_names {name : String} {declared : List String}
    {given : List (String × Value)} (hdistinct : declared.Nodup)
    (hnames : given.map Prod.fst = declared) : checkGiven name declared [] given = .ok () := by
  subst hnames
  exact checkGiven_eq_ok_iff.2 ⟨fun other h => ⟨h, List.not_mem_nil⟩, hdistinct⟩

theorem WellFormed.canonical {layout : Layout} (h : layout.WellFormed) : layout.Canonical := by
  induction h with
  | number name builtin =>
    intro r v r' h
    rw [unpack] at h
    obtain ⟨bytes, hpasses, hencodes, hprecise⟩ := unpackNumber_eq_ok h
    exact ⟨bytes, hpasses, bytesOf_packNumber.2 hencodes, hprecise, rfl⟩
  | @enumeration name labels hdistinct hcount =>
    intro r v r' h
    rw [unpack] at h
    obtain ⟨i, mid, hi, h⟩ := Decoder.bind_eq_ok_iff.1 h
    obtain ⟨-, hpasses⟩ := Decoder.readUInt_eq_ok hi
    cases hlabel : labels[i]? with
    | none =>
      rw [hlabel] at h
      cases h
    | some label =>
      rw [hlabel] at h
      obtain ⟨rfl, rfl⟩ := Decoder.pure_eq_ok_iff.1 h
      refine ⟨_, hpasses, ?_, rfl, rfl⟩
      exact (bytesOf_pack_enumeration hdistinct).2 ⟨i, label, rfl, hlabel, rfl⟩
  | @composite name fields hdistinct hparts ih =>
    intro r v r' h
    rw [unpack] at h
    obtain ⟨placed, mid, hplaced, h⟩ := Decoder.bind_eq_ok_iff.1 h
    obtain ⟨rfl, rfl⟩ := Decoder.pure_eq_ok_iff.1 h
    obtain ⟨parts, hpasses, harranged, hgiven⟩ := unpackFields_eq_ok ih hplaced
    have hnames : placed.map Prod.fst = fields.map Prod.fst := harranged.names.1
    have hfound : (placed.map Prod.fst).Nodup := hnames ▸ hdistinct
    obtain ⟨hwritten, hprecise⟩ :=
      hgiven placed fun field hfield => lookup_eq_some_of_mem hfound hfield
    refine ⟨parts.flatten, hpasses, ?_, ?_, placed, .refl placed, harranged⟩
    · exact bytesOf_pack_composite.2
        ⟨placed, parts, rfl, checkGiven_of_names hdistinct hnames, hwritten, rfl⟩
    · exact partsSinglePrecise_iff.2 fun f hf v hv =>
        hprecise f hf v (lookup_eq_some_of_mem hfound hv)
  | @fixedArray name count element hpart ih =>
    intro r v r' h
    rw [unpack] at h
    obtain ⟨vs, mid, hvs, h⟩ := Decoder.bind_eq_ok_iff.1 h
    obtain ⟨rfl, rfl⟩ := Decoder.pure_eq_ok_iff.1 h
    obtain ⟨parts, hpasses, hwritten, hprecise, harranged⟩ := repeated_unpack_eq_ok ih hvs
    refine ⟨parts.flatten, hpasses, ?_, hprecise, harranged⟩
    exact bytesOf_pack_fixedArray.2
      ⟨vs, parts, rfl, Decoder.length_repeated hvs, hwritten, rfl⟩
  | @variableArray name max sizeType element hfits hpart ih =>
    intro r v r' h
    rw [unpack] at h
    obtain ⟨len, mid, hlen, h⟩ := Decoder.bind_eq_ok_iff.1 h
    obtain ⟨-, hfront⟩ := Decoder.readUInt_eq_ok hlen
    by_cases hmax : len ≤ max
    · rw [if_pos hmax] at h
      obtain ⟨vs, mid', hvs, h⟩ := Decoder.bind_eq_ok_iff.1 h
      obtain ⟨rfl, rfl⟩ := Decoder.pure_eq_ok_iff.1 h
      obtain rfl : vs.length = len := Decoder.length_repeated hvs
      obtain ⟨parts, hpasses, hwritten, hprecise, harranged⟩ := repeated_unpack_eq_ok ih hvs
      refine ⟨_, hfront.trans hpasses, ?_, hprecise, harranged⟩
      exact bytesOf_pack_variableArray.2 ⟨vs, parts, rfl, hmax, hwritten, rfl⟩
    · rw [if_neg hmax] at h
      cases h
  | @group name variants hdistinct hcount hparts ih =>
    intro r v r' h
    rw [unpack] at h
    obtain ⟨tag, mid, htag, h⟩ := Decoder.bind_eq_ok_iff.1 h
    obtain ⟨-, hfront⟩ := Decoder.readUInt_eq_ok htag
    obtain ⟨variant, layout, payload, hi, hpayload, rfl⟩ := unpackVariant_eq_ok h
    have hmem : (variant, layout) ∈ variants := List.mem_of_getElem? hi
    obtain ⟨part, hpasses, hbytes, hprecise, harranged⟩ := ih _ hmem mid payload r' hpayload
    refine ⟨_, hfront.trans hpasses, ?_, ?_, rfl, ?_⟩
    · exact (bytesOf_pack_group hdistinct).2
        ⟨tag, variant, payload, layout, part, rfl, hi, hbytes, rfl⟩
    · -- The only value under the variant's name is the payload, and its layout the one read.
      refine partsSinglePrecise_iff.2 ?_
      rintro ⟨variant', layout'⟩ hmem' v hv
      cases List.mem_singleton.1 hv
      obtain rfl : layout = layout' := eq_of_mem_of_mem hdistinct hmem hmem'
      exact hprecise
    · exact arrangedPart_iff.2 ⟨layout, hmem, harranged⟩

end Layout

namespace Schema

theorem unpackFrom_eq_ok {s : Schema} {typeName : String} {v : Value} {r r' : Reader}
    (h : s.unpackFrom typeName r = .ok v r') :
    ∃ layout bytes, s.layout? typeName = some layout ∧ r.Passes bytes r' ∧
      Encoder.bytesOf (layout.pack v) = .ok bytes ∧ layout.isSinglePrecise v = true ∧
      layout.Arranged v v := by
  cases hlayout : s.layout? typeName with
  | none =>
    unfold unpackFrom requireLayout at h
    rw [hlayout] at h
    cases h
  | some layout =>
    rw [unpackFrom_of_layout? hlayout] at h
    obtain ⟨bytes, hrest⟩ := (wellFormed_layout hlayout).canonical r v r' h
    exact ⟨layout, bytes, rfl, hrest⟩

/-- A reader that walks over a list stands at an index of it. -/
theorem eq_extract_of_passes {data bytes rest : List UInt8} {i j : Nat}
    (h : Reader.Passes ⟨i, data.drop i⟩ bytes ⟨j, rest⟩) :
    bytes = data.extract i j ∧ rest = data.drop j := by
  obtain ⟨hunread, hindex⟩ := h
  have hdrop : data.drop i = bytes ++ rest := hunread
  have hj : j = i + bytes.length := hindex
  refine ⟨?_, ?_⟩
  · rw [List.extract_eq_take_drop, hdrop, hj, Nat.add_sub_cancel_left, List.take_left]
  · rw [hj, ← List.drop_drop, hdrop, List.drop_left]

theorem pack_of_unpack {s : Schema} {typeName : String} {v : Value} {bytes : List UInt8}
    (h : s.unpack typeName bytes = .ok v) : s.pack typeName v = .ok bytes := by
  obtain ⟨r', hfrom, hunread⟩ := Decoder.readAll_eq_ok_iff.1 h
  obtain ⟨layout, taken, hlayout, hpasses, hbytes, -, -⟩ := unpackFrom_eq_ok hfrom
  have hall : bytes = taken := by
    have happend : bytes = taken ++ r'.unread := hpasses.1
    rw [happend, hunread, List.append_nil]
  rw [hall]
  exact pack_eq_ok_iff.2 ⟨layout, hlayout, hbytes⟩

/-- What is decoded from a place in a byte string is encoded as the bytes that were read there; so
a whole byte string is the encoding of its value, and no other byte string has that value. -/
theorem pack_unpack (s : Schema) (typeName : String) :
    (∀ (data : List UInt8) i v j rest, s.unpackFrom typeName ⟨i, data.drop i⟩ = .ok v ⟨j, rest⟩ →
      rest = data.drop j ∧ s.pack typeName v = .ok (data.extract i j)) ∧
    (∀ bytes v, s.unpack typeName bytes = .ok v → s.pack typeName v = .ok bytes) ∧
    ∀ a b v, s.unpack typeName a = .ok v → s.unpack typeName b = .ok v → a = b := by
  refine ⟨?_, ?_, ?_⟩
  · intro data i v j rest h
    obtain ⟨layout, bytes, hlayout, hpasses, hbytes, -, -⟩ := unpackFrom_eq_ok h
    obtain ⟨rfl, rfl⟩ := eq_extract_of_passes hpasses
    exact ⟨rfl, pack_eq_ok_iff.2 ⟨layout, hlayout, hbytes⟩⟩
  · intro bytes v h
    exact pack_of_unpack h
  · intro a b v ha hb
    have hpack := pack_of_unpack ha
    rw [pack_of_unpack hb] at hpack
    exact (Except.ok.inj hpack).symm

open Sample

theorem pack_unpack_log :
    ∃ s v w, Lab.schema = .ok s ∧
      s.unpackFrom "log" ⟨2, ([9, 9] ++ Lab.logBytes ++ [7]).drop 2⟩ = .ok v ⟨10, [7]⟩ ∧
      s.pack "log" v = .ok (([9, 9] ++ Lab.logBytes ++ [7]).extract 2 10) ∧
      s.unpack "log" Lab.logBytes = .ok w ∧ s.pack "log" w = .ok Lab.logBytes := by
  have hrun : Lab.schema.map (fun s =>
      (match s.unpackFrom "log" ⟨2, ([9, 9] ++ Lab.logBytes ++ [7]).drop 2⟩ with
        | .ok _ r => some r
        | .error _ _ => none,
       (s.unpack "log" Lab.logBytes).isOk)) = .ok (some ⟨10, [7]⟩, true) := by
    decide +kernel
  obtain ⟨s, hs, hpair⟩ := exists_of_map_eq_ok hrun
  obtain ⟨hmiddle, hwhole⟩ := Prod.mk.inj hpair
  obtain ⟨hfrom, hall, -⟩ := pack_unpack s "log"
  split at hmiddle
  · next v r hv =>
    cases hmiddle
    cases hw : s.unpack "log" Lab.logBytes with
    | error e =>
      rw [hw] at hwhole
      cases hwhole
    | ok w => exact ⟨s, v, w, hs, hv, (hfrom _ _ _ _ _ hv).2, hw, hall _ _ hw⟩
  · cases hmiddle

end Schema
end WireCodec
