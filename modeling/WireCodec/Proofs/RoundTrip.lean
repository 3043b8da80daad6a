import WireCodec.Proofs.Packing

/-!
# Decoding undoes encoding

* `Layout.RoundTrips layout`        the bytes of a value are read as the value in order;
* `Layout.reads_unpackFields`       one field after the other;
* `Layout.exists_reads_elements`    one element after the other;
* `Layout.WellFormed.roundTrips`    every well-formed layout round-trips;
* `Schema.unpack_pack`              so does every type of a schema, whatever bytes follow.
-/

namespace WireCodec

namespace Layout

open Encoder

/-- The bytes of a value are read, wherever they stand, as the value with its fields in order. -/
def RoundTrips (layout : Layout) : Prop :=
  ∀ v bytes, bytesOf (layout.pack v) = .ok bytes → layout.isSinglePrecise v = true →
    ∃ w, layout.Arranged v w ∧ layout.unpack.Reads bytes w

theorem reads_unpack_enumeration {name : String} {labels : List String} {i : Nat}
    {label : String} (hcount : labels.length ≤ maxEntries) (hi : labels[i]? = some label) :
    (enumeration name labels).unpack.Reads
      (LittleEndian.toBytes (tagType labels.length).byteLength i) (.label label) := by
  obtain ⟨hlt, -⟩ := List.getElem?_eq_some_iff.1 hi
  rw [unpack, ← List.append_nil (LittleEndian.toBytes _ i)]
  refine (Decoder.reads_readUInt (lt_twoPow_tagType hlt hcount)).bind ?_
  rw [hi]
  exact Decoder.reads_pure _

/-- The declared fields are picked from the given ones, each is arranged, and their bytes are read
as the fields in declaration order. -/
theorem reads_unpackFields {given : List (String × Value)} {fields : List (String × Layout)}
    {parts : List (List UInt8)} (hfields : ∀ f ∈ fields, f.2.RoundTrips)
    (hparts : List.Forall₂ (FieldBytes given) fields parts)
    (hprecise : partsSinglePrecise given fields = true) :
    ∃ moved placed, (∀ field ∈ moved, given.lookup field.1 = some field.2) ∧
      ArrangedFields fields moved placed ∧ (unpackFields fields).Reads parts.flatten placed := by
  induction hparts with
  | nil =>
    refine ⟨[], [], ?_, ⟨rfl, rfl⟩, Decoder.reads_pure []⟩
    intro field hfield
    cases hfield
  | @cons field part fields parts hfirst _ ih =>
    obtain ⟨name, layout⟩ := field
    obtain ⟨v, hv, hbytes⟩ := hfirst
    obtain ⟨htrip, htrips⟩ := List.forall_mem_cons.1 hfields
    obtain ⟨hvprecise, hprecise⟩ :=
      List.forall_mem_cons.1 (partsSinglePrecise_iff.1 hprecise)
    obtain ⟨w, hw, hread⟩ := htrip v part hbytes (hvprecise v (mem_of_lookup_eq_some hv))
    obtain ⟨moved, placed, hmoved, harranged, hreads⟩ :=
      ih htrips (partsSinglePrecise_iff.2 hprecise)
    refine ⟨(name, v) :: moved, (name, w) :: placed, ?_, ⟨v, w, moved, placed, rfl, rfl, hw,
      harranged⟩, ?_⟩
    · exact List.forall_mem_cons.2 ⟨hv, hmoved⟩
    · rw [unpackFields, List.flatten_cons]
      exact hread.bind hreads.bind_pure

theorem exists_reads_elements {element : Layout} {vs : List Value} {parts : List (List UInt8)}
    (helement : element.RoundTrips) (hparts : List.Forall₂ element.ElementBytes vs parts)
    (hprecise : vs.all element.isSinglePrecise = true) :
    ∃ ws, List.Forall₂ element.Arranged vs ws ∧
      (Decoder.repeated vs.length element.unpack).Reads parts.flatten ws := by
  have hreads : ∃ ws, List.Forall₂ element.Arranged vs ws ∧
      List.Forall₂ element.unpack.Reads parts ws := by
    induction hparts with
    | nil => exact ⟨[], .nil, .nil⟩
    | @cons v part vs parts hpart _ ih =>
      rw [List.all_cons, Bool.and_eq_true] at hprecise
      obtain ⟨w, hw, hread⟩ := helement v part hpart hprecise.1
      obtain ⟨ws, hws, hreads⟩ := ih hprecise.2
      exact ⟨w :: ws, .cons hw hws, .cons hread hreads⟩
  obtain ⟨ws, hws, hreads⟩ := hreads
  refine ⟨ws, hws, ?_⟩
  rw [hws.length_eq]
  exact Decoder.reads_repeated hreads

theorem unpackVariant_of_getElem? {typeName : String} {tag i : Nat}
    {variants : List (String × Layout)} {variant : String} {layout : Layout}
    (h : variants[i]? = some (variant, layout)) :
    unpackVariant typeName tag i variants =
      (layout.unpack >>= fun payload => pure (.group variant payload)) := by
  induction variants generalizing i with
  | nil => cases h
  | cons first variants ih =>
    cases i with
    | zero =>
      cases h
      rw [unpackVariant]
    | succ i =>
      rw [unpackVariant]
      exact ih h

/-- The names that were given are the declared ones, so that picking the fields permutes them. -/
theorem perm_moved {name : String} {fields : List (String × Layout)}
    {given moved placed : List (String × Value)} (hdistinct : (fields.map Prod.fst).Nodup)
    (hgiven : checkGiven name (fields.map Prod.fst) [] given = .ok ())
    (hmoved : ∀ field ∈ moved, given.lookup field.1 = some field.2)
    (harranged : ArrangedFields fields moved placed) : given.Perm moved := by
  obtain ⟨hdeclared, hnodup⟩ := checkGiven_eq_ok_iff.1 hgiven
  have hnames : moved.map Prod.fst = fields.map Prod.fst := harranged.names.1
  refine perm_of_lookups hnodup ?_ ?_ hmoved
  · rw [hnames]
    exact hdistinct
  · intro given' hgiven'
    rw [hnames]
    exact (hdeclared given' hgiven').1

theorem WellFormed.roundTrips {layout : Layout} (h : layout.WellFormed) : layout.RoundTrips := by
  induction h with
  | number name builtin =>
    intro v bytes hbytes hprecise
    exact ⟨v, rfl, reads_unpackNumber (bytesOf_packNumber.1 hbytes) hprecise⟩
  | enumeration hdistinct hcount =>
    intro v bytes hbytes hprecise
    obtain ⟨i, label, rfl, hi, rfl⟩ := (bytesOf_pack_enumeration hdistinct).1 hbytes
    exact ⟨.label label, rfl, reads_unpack_enumeration hcount hi⟩
  | @composite name fields hdistinct hparts ih =>
    intro v bytes hbytes hprecise
    obtain ⟨given, parts, rfl, hgiven, hfields, rfl⟩ := bytesOf_pack_composite.1 hbytes
    obtain ⟨moved, placed, hmoved, harranged, hreads⟩ :=
      reads_unpackFields ih hfields hprecise
    refine ⟨.composite placed, ⟨moved, ?_, harranged⟩, ?_⟩
    · exact perm_moved hdistinct hgiven hmoved harranged
    · rw [unpack]
      exact hreads.bind_pure
  | @fixedArray name count element hpart ih =>
    intro v bytes hbytes hprecise
    obtain ⟨vs, parts, rfl, rfl, hparts, rfl⟩ := bytesOf_pack_fixedArray.1 hbytes
    obtain ⟨ws, hws, hreads⟩ := exists_reads_elements ih hparts hprecise
    refine ⟨.fixedArray ws, hws, ?_⟩
    rw [unpack]
    exact hreads.bind_pure
  | @variableArray name max sizeType element hfits hpart ih =>
    intro v bytes hbytes hprecise
    obtain ⟨vs, parts, rfl, hlength, hparts, rfl⟩ := bytesOf_pack_variableArray.1 hbytes
    obtain ⟨ws, hws, hreads⟩ := exists_reads_elements ih hparts hprecise
    refine ⟨.variableArray ws, hws, ?_⟩
    rw [unpack]
    refine (Decoder.reads_readUInt (Nat.lt_of_le_of_lt hlength hfits)).bind ?_
    rw [if_pos hlength]
    exact hreads.bind_pure
  | @group name variants hdistinct hcount hparts ih =>
    intro v bytes hbytes hprecise
    obtain ⟨i, variant, payload, layout, part, rfl, hi, hpart, rfl⟩ :=
      (bytesOf_pack_group hdistinct).1 hbytes
    have hmem : (variant, layout) ∈ variants := List.mem_of_getElem? hi
    obtain ⟨hlt, -⟩ := List.getElem?_eq_some_iff.1 hi
    have hpayload := partsSinglePrecise_iff.1 hprecise _ hmem payload List.mem_cons_self
    obtain ⟨w, hw, hread⟩ := ih _ hmem payload part hpart hpayload
    refine ⟨.group variant w, ⟨rfl, arrangedPart_iff.2 ⟨layout, hmem, hw⟩⟩, ?_⟩
    rw [unpack]
    refine (Decoder.reads_readUInt (lt_twoPow_tagType hlt hcount)).bind ?_
    rw [unpackVariant_of_getElem? hi]
    exact hread.bind_pure

end Layout

namespace Schema

theorem isSinglePrecise_of_layout? {s : Schema} {typeName : String} {layout : Layout} {v : Value}
    (hlayout : s.layout? typeName = some layout) :
    s.isSinglePrecise typeName v = layout.isSinglePrecise v := by
  unfold isSinglePrecise
  rw [hlayout]

/-- A value is decoded from its encoding, whatever follows it, with the fields of every composite
in declaration order and nothing else changed. -/
theorem unpack_pack {s : Schema} {typeName : String} {v : Value} {bytes : List UInt8}
    (hpack : s.pack typeName v = .ok bytes) (hprecise : s.isSinglePrecise typeName v = true) :
    ∃ w, s.Arranged typeName v w ∧ (∀ u, s.Arranged typeName v u → u = w) ∧
      (∀ i rest, s.unpackFrom typeName ⟨i, bytes ++ rest⟩ = .ok w ⟨i + bytes.length, rest⟩) ∧
      s.unpack typeName bytes = .ok w := by
  obtain ⟨layout, hlayout, hbytes⟩ := pack_eq_ok_iff.1 hpack
  have hformed : layout.WellFormed := wellFormed_layout hlayout
  rw [isSinglePrecise_of_layout? hlayout] at hprecise
  obtain ⟨w, hw, hreads⟩ := hformed.roundTrips v bytes hbytes hprecise
  refine ⟨w, ⟨layout, hlayout, hw⟩, ?_, ?_, ?_⟩
  · rintro u ⟨layout', hlayout', hu⟩
    rw [hlayout] at hlayout'
    cases hlayout'
    exact hformed.arranged_unique hu hw
  · intro i rest
    rw [unpackFrom_of_layout? hlayout]
    exact hreads.run i rest
  · unfold unpack
    rw [unpackFrom_of_layout? hlayout]
    exact hreads.readAll typeName

end Schema

namespace Sample.Lab

/-- Logs hold composites within an array within a composite. -/
def definitions : List TypeDef := [
  .composite ⟨"sample", [⟨"at", "uint16"⟩, ⟨"level", "float32"⟩], by decide⟩,
  .variableArray ⟨"series", "sample", 4, .uint8, by decide, Builtin.isUnsigned_uint8, by decide⟩,
  .composite ⟨"log", [⟨"samples", "series"⟩, ⟨"offset", "int8"⟩], by decide⟩]

def schema : Except SchemaError Schema :=
  Schema.build "lab" "1.0.0" definitions

def sampleFields : List (String × Value) :=
  [("level", .float ⟨0x3FF8000000000000⟩), ("at", .integer 258)]

/-- A log with its fields and those of its sample out of order. -/
def log : Value :=
  .composite [("offset", .integer (-2)), ("samples", .variableArray [.composite sampleFields])]

def logBytes : List UInt8 := [1, 2, 1, 0, 0, 0xC0, 0x3F, 0xFE]

end Sample.Lab

namespace Schema

open Sample

theorem unpack_pack_log :
    ∃ s, Lab.schema = .ok s ∧ s.pack "log" Lab.log = .ok Lab.logBytes ∧
      s.isSinglePrecise "log" Lab.log = true ∧
      ∃ w, s.Arranged "log" Lab.log w ∧ (∀ u, s.Arranged "log" Lab.log u → u = w) ∧
        (∀ i rest, s.unpackFrom "log" ⟨i, Lab.logBytes ++ rest⟩ =
          .ok w ⟨i + Lab.logBytes.length, rest⟩) ∧
        s.unpack "log" Lab.logBytes = .ok w := by
  have hrun : Lab.schema.map (fun s =>
      (s.pack "log" Lab.log, s.isSinglePrecise "log" Lab.log)) =
        .ok (.ok Lab.logBytes, true) := by
    decide +kernel
  obtain ⟨s, hs, hpair⟩ := exists_of_map_eq_ok hrun
  obtain ⟨hpack, hprecise⟩ := Prod.mk.inj hpair
  exact ⟨s, hs, hpack, hprecise, unpack_pack hpack hprecise⟩

end Schema
end WireCodec
