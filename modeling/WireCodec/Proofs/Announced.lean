import WireCodec.Proofs.Framing
import WireCodec.Proofs.Sizes

/-!
# Announced elements

A variable array announces the number of its elements in front of them.  Bytes of untrusted origin
may announce more than they hold.

* `Layout.Weightless`             a layout whose size is zero and which reads a value from no bytes;
* `Layout.weightless_ofTypeDef`   a type with an empty encoding is weightless;
* `Schema.length_le_of_repeated`  other elements take at least a byte each, so no more of them are
                                  read than there are bytes;
* `Schema.announced_of_unpack`    the elements of an accepted array are as many as announced, and
                                  their encodings are the bytes behind the number;
* `Schema.unpack_announced`       an array that announces more elements than bytes follow is refused,
                                  unless its elements are weightless.
-/

namespace WireCodec

/-! ## Values without bytes -/

namespace Layout

/-- The layout takes no bytes: its size is zero, and a value of it is read from nothing. -/
structure Weightless (layout : Layout) : Prop where
  size : layout.encodedSize = .fixed 0
  reads : ∃ v, layout.unpack.Reads [] v

section
variable {fields : List (String × Layout)}

theorem encodedSizeFields_of_weightless (h : ∀ f ∈ fields, f.2.Weightless) :
    encodedSizeFields 0 fields = .fixed 0 := by
  induction fields with
  | nil => rw [encodedSizeFields]
  | cons f fields ih =>
    rw [List.forall_mem_cons] at h
    rw [encodedSizeFields, h.1.size]
    exact ih h.2

theorem reads_unpackFields_of_weightless (h : ∀ f ∈ fields, f.2.Weightless) :
    ∃ placed, (unpackFields fields).Reads [] placed := by
  induction fields with
  | nil =>
    rw [unpackFields]
    exact ⟨[], Decoder.reads_pure []⟩
  | cons f fields ih =>
    rw [List.forall_mem_cons] at h
    obtain ⟨v, hv⟩ := h.1.reads
    obtain ⟨placed, hplaced⟩ := ih h.2
    rw [unpackFields]
    exact ⟨(f.1, v) :: placed, hv.bind hplaced.bind_pure⟩

theorem weightless_composite (h : ∀ f ∈ fields, f.2.Weightless) (name : String) :
    (composite name fields).Weightless := by
  obtain ⟨placed, hplaced⟩ := reads_unpackFields_of_weightless h
  refine ⟨?_, .composite placed, ?_⟩
  · rw [encodedSize, encodedSizeFields_of_weightless h]
  · rw [unpack]
    exact hplaced.bind_pure

end

theorem reads_repeated_nil {element : Layout} {v : Value} (h : element.unpack.Reads [] v)
    (count : Nat) : (Decoder.repeated count element.unpack).Reads [] (List.replicate count v) := by
  have heach : List.Forall₂ element.unpack.Reads (List.replicate count [])
      (List.replicate count v) := by
    induction count with
    | zero => exact .nil
    | succ count ih => exact .cons h ih
  have hall := Decoder.reads_repeated heach
  rw [List.length_replicate, List.flatten_replicate_nil] at hall
  exact hall

theorem reads_announced {element : Layout} {v : Value} (h : element.unpack.Reads [] v)
    {name : String} {max n : Nat} {sizeType : Builtin}
    (hn : n < twoPow (8 * sizeType.byteLength)) (hmax : n ≤ max) :
    (variableArray name max sizeType element).unpack.Reads
      (LittleEndian.toBytes sizeType.byteLength n) (.variableArray (List.replicate n v)) := by
  rw [← List.append_nil (LittleEndian.toBytes sizeType.byteLength n), unpack]
  refine (Decoder.reads_readUInt hn).bind ?_
  rw [if_pos hmax]
  exact (reads_repeated_nil h n).bind_pure

theorem Weightless.fixedArray {element : Layout} (h : element.Weightless) (name : String)
    (count : Nat) : (fixedArray name count element).Weightless := by
  obtain ⟨v, hv⟩ := h.reads
  refine ⟨?_, .fixedArray (List.replicate count v), ?_⟩
  · have hsize : EncodedSize.mul 0 count = 0 := by
      rw [EncodedSize.mul, Nat.zero_mul, Nat.zero_min]
    rw [encodedSize, h.size]
    exact congrArg EncodedSize.fixed hsize
  · rw [unpack]
    exact (reads_repeated_nil hv count).bind_pure

/-- A definition with an empty encoding is made of parts with empty encodings only. -/
theorem weightless_ofTypeDef {known : String → Option Layout} {d : TypeDef} {layout : Layout}
    (hknown : ∀ name part, known name = some part → 0 ∈ part.lengths → part.Weightless)
    (h : ofTypeDef? known d = some layout) (hzero : 0 ∈ layout.lengths) : layout.Weightless := by
  cases d with
  | builtin b =>
    cases h
    rw [lengths_number] at hzero
    exact absurd hzero (Nat.ne_of_lt b.byteLength_pos)
  | scalar t =>
    cases h
    rw [lengths_number] at hzero
    exact absurd hzero (Nat.ne_of_lt t.builtin.byteLength_pos)
  | enumeration t =>
    cases h
    rw [lengths_enumeration t.distinct t.nonempty] at hzero
    exact absurd hzero (Nat.ne_of_lt (Builtin.byteLength_pos _))
  | composite t =>
    obtain ⟨fields, hfields, rfl⟩ := Option.map_eq_some_iff.1 h
    have hnames := map_fst_eq_fieldNames (ofFields?_eq_some hfields)
    have hdistinct : (fields.map Prod.fst).Nodup := hnames ▸ t.distinct
    obtain ⟨ns, hns, hsum⟩ := (mem_lengths_composite hdistinct).1 hzero
    refine weightless_composite (fun f hf => ?_) t.name
    obtain ⟨n, hn, hmem⟩ := exists_right_of_mem hns hf
    rw [List.sum_eq_zero_iff.1 hsum.symm n hn] at hmem
    exact forall_of_ofFields? hknown hfields f hf hmem
  | fixedArray t =>
    obtain ⟨element, helement, rfl⟩ := Option.map_eq_some_iff.1 h
    obtain ⟨ns, hcount, hns, hsum⟩ := mem_lengths_fixedArray.1 hzero
    -- There is at least one element, and it is empty like all of them.
    obtain ⟨n, hn⟩ := List.exists_mem_of_length_pos (hcount ▸ t.positive)
    have hmem := hns n hn
    rw [List.sum_eq_zero_iff.1 hsum.symm n hn] at hmem
    exact (hknown t.element element helement hmem).fixedArray t.name t.count
  | variableArray t =>
    obtain ⟨element, helement, rfl⟩ := Option.map_eq_some_iff.1 h
    obtain ⟨ns, -, -, hsum⟩ := mem_lengths_variableArray.1 hzero
    have hpos := t.sizeType.byteLength_pos
    omega
  | group t =>
    obtain ⟨variants, hvariants, rfl⟩ := Option.map_eq_some_iff.1 h
    have hnames := map_fst_eq_fieldNames (ofFields?_eq_some hvariants)
    have hdistinct : (variants.map Prod.fst).Nodup := hnames ▸ t.distinct
    obtain ⟨f, -, m, -, hsum⟩ := (mem_lengths_group hdistinct).1 hzero
    have hpos := (tagType variants.length).byteLength_pos
    omega

/-- Elements that have no empty encoding take at least a byte each. -/
theorem length_le_of_elementBytes {element : Layout} (hzero : 0 ∉ element.lengths)
    {vs : List Value} {parts : List (List UInt8)}
    (h : List.Forall₂ element.ElementBytes vs parts) : vs.length ≤ parts.flatten.length := by
  have hpos : ∀ n ∈ parts.map List.length, 1 ≤ n := by
    intro n hn
    have hmem := forall_mem_lengths_iff.2 ⟨vs, parts, h, rfl⟩ n hn
    exact Nat.one_le_iff_ne_zero.2 fun hn => hzero (hn ▸ hmem)
  calc vs.length = (parts.map List.length).length := by rw [List.length_map, h.length_eq]
    _ ≤ (parts.map List.length).sum := List.length_le_sum_of_one_le _ hpos
    _ = parts.flatten.length := List.length_flatten.symm

end Layout

theorem LittleEndian.toBytes_inj {width m n : Nat} (hm : m < twoPow (8 * width))
    (hn : n < twoPow (8 * width)) (h : toBytes width m = toBytes width n) : m = n := by
  have hread := congrArg ofBytes h
  rwa [ofBytes_toBytes, ofBytes_toBytes, Nat.mod_eq_of_lt hm, Nat.mod_eq_of_lt hn] at hread

/-! ## Types of a schema -/

namespace Schema

variable {name version : String} {declared : List TypeDef} {s : Schema} {t : VariableArray}
variable {e : TypeDef} {element : Layout}

/-- A type has an empty encoding exactly if its size is zero. -/
theorem zero_mem_lengths_iff {n : String} (h : s.layout? n = some element) :
    0 ∈ element.lengths ↔ element.encodedSize = .fixed 0 := by
  refine ⟨fun hzero => (forall_layout Layout.weightless_ofTypeDef h hzero).size, ?_⟩
  intro hsize
  obtain ⟨k, hk⟩ := exists_measures h
  rcases hk.size with hvarying | ⟨hfixed, -⟩
  · rw [hvarying] at hsize
    cases hsize
  · rw [hfixed] at hsize
    have hcap : EncodedSize.cap k = 0 := EncodedSize.fixed.inj hsize
    have hk0 : k = 0 := by
      unfold EncodedSize.cap EncodedSize.limit at hcap
      omega
    exact hk0 ▸ hk.greatest.1

theorem Consistent.layout?_variableArray (h : s.Consistent)
    (ht : .variableArray t ∈ s.definitions) :
    ∃ element, s.layout? t.element = some element ∧
      s.layout? t.name = some (.variableArray t.name t.max t.sizeType element) := by
  obtain ⟨layout, hlayout, hdef⟩ := h.layout?_of_get? (h.get?_eq_some_iff.2 ⟨ht, rfl⟩)
  obtain ⟨element, helement, rfl⟩ := Option.map_eq_some_iff.1 hdef
  exact ⟨element, helement, hlayout⟩

/-- An accepted array has as many elements as it announces, and behind the number stand their
encodings and nothing else. -/
theorem announced_of_unpack
    (hlayout : s.layout? t.name = some (.variableArray t.name t.max t.sizeType element))
    {n : Nat} {rest : List UInt8} {v : Value} (hn : n < twoPow (8 * t.sizeType.byteLength))
    (h : s.unpack t.name (LittleEndian.toBytes t.sizeType.byteLength n ++ rest) = .ok v) :
    ∃ vs parts, v = .variableArray vs ∧ vs.length = n ∧ n ≤ t.max ∧
      List.Forall₂ element.ElementBytes vs parts ∧ rest = parts.flatten := by
  have hpack := pack_of_unpack h
  rw [pack_of_layout? hlayout] at hpack
  obtain ⟨vs, parts, rfl, hmax, hparts, hbytes⟩ := Layout.bytesOf_pack_variableArray.1 hpack
  have hwidth : (LittleEndian.toBytes t.sizeType.byteLength n).length =
      (LittleEndian.toBytes t.sizeType.byteLength vs.length).length := by
    rw [LittleEndian.length_toBytes, LittleEndian.length_toBytes]
  obtain ⟨hnumber, hrest⟩ := List.append_inj hbytes hwidth
  have hcount := LittleEndian.toBytes_inj hn (Nat.lt_of_le_of_lt hmax t.fits) hnumber
  exact ⟨vs, parts, rfl, hcount.symm, hcount ▸ hmax, hparts, hrest⟩

theorem length_le_of_repeated (helement : s.layout? t.element = some element)
    (hzero : 0 ∉ element.lengths) {count : Nat} {vs : List Value} {r r' : Reader}
    (h : Decoder.repeated count (s.unpackFrom t.element) r = .ok vs r') :
    count ≤ r.unread.length := by
  rw [unpackFrom_of_layout? helement] at h
  have hcanonical := (wellFormed_layout helement).canonical
  obtain ⟨parts, hpasses, hparts, -, -⟩ := Layout.repeated_unpack_eq_ok hcanonical h
  have hle := Layout.length_le_of_elementBytes hzero hparts
  rw [Decoder.length_repeated h] at hle
  rw [hpasses.1, List.length_append]
  omega

/-- Of elements without bytes, an array holds as many as it announces, and nothing behind. -/
theorem unpack_weightless
    (hlayout : s.layout? t.name = some (.variableArray t.name t.max t.sizeType element))
    {v : Value} (hv : element.unpack.Reads [] v) {n : Nat} {rest : List UInt8} {w : Value}
    (hn : n < twoPow (8 * t.sizeType.byteLength)) :
    s.unpack t.name (LittleEndian.toBytes t.sizeType.byteLength n ++ rest) = .ok w ↔
      n ≤ t.max ∧ rest = [] ∧ w = .variableArray (List.replicate n v) := by
  have hread : ∀ bytes, s.unpack t.name bytes = Decoder.readAll t.name
      (Layout.variableArray t.name t.max t.sizeType element).unpack bytes := by
    intro bytes
    unfold Schema.unpack
    rw [unpackFrom_of_layout? hlayout]
  refine ⟨?_, ?_⟩
  · intro h
    obtain ⟨-, -, -, -, hmax, -, -⟩ := announced_of_unpack hlayout hn h
    have hreads : (Layout.variableArray t.name t.max t.sizeType element).unpack.Reads _ _ :=
      Layout.reads_announced hv hn hmax
    rw [hread] at h
    by_cases hrest : rest = []
    · rw [hrest, List.append_nil, hreads.readAll t.name] at h
      exact ⟨hmax, hrest, (Except.ok.inj h).symm⟩
    · rw [hreads.readAll_append hrest t.name] at h
      cases h
  · rintro ⟨hmax, rfl, rfl⟩
    rw [hread, List.append_nil]
    exact (Layout.reads_announced hv hn hmax).readAll t.name

/-- An array that announces more elements than bytes follow is refused, and reading it never builds
more elements than there are bytes, provided that elements take any.  Elements of size zero take
none: of these, the number alone stands for as many as it says, up to the maximum. -/
theorem unpack_announced (h : build name version declared = .ok s)
    (ht : .variableArray t ∈ s.definitions) (he : s.get? t.element = some e) {n : Nat}
    {rest : List UInt8} (hn : n < twoPow (8 * t.sizeType.byteLength))
    (hshort : rest.length < n) :
    (s.encodedSize e ≠ .fixed 0 →
      (∃ fault, s.unpack t.name (LittleEndian.toBytes t.sizeType.byteLength n ++ rest) =
        .error fault) ∧
      ∀ i count vs r, Decoder.repeated count (s.unpackFrom t.element) ⟨i, rest⟩ = .ok vs r →
        count ≤ rest.length) ∧
    (s.encodedSize e = .fixed 0 → ∃ v, ∀ w,
      s.unpack t.name (LittleEndian.toBytes t.sizeType.byteLength n ++ rest) = .ok w ↔
        n ≤ t.max ∧ rest = [] ∧ w = .variableArray (List.replicate n v)) := by
  have hs := consistent_of_build h
  obtain ⟨element, helement, hlayout⟩ := hs.layout?_variableArray ht
  obtain ⟨-, hname⟩ := hs.get?_eq_some_iff.1 he
  have hsize := zero_mem_lengths_iff helement
  rw [encodedSize_of_layout? (hname.symm ▸ helement)]
  refine ⟨?_, ?_⟩
  · intro hbytes
    have hzero : 0 ∉ element.lengths := fun hmem => hbytes (hsize.1 hmem)
    refine ⟨?_, fun i count vs r hrun => length_le_of_repeated helement hzero hrun⟩
    cases hunpack : s.unpack t.name (LittleEndian.toBytes t.sizeType.byteLength n ++ rest) with
    | error fault => exact ⟨fault, rfl⟩
    | ok v =>
      obtain ⟨vs, parts, -, rfl, -, hparts, rfl⟩ := announced_of_unpack hlayout hn hunpack
      have hle := Layout.length_le_of_elementBytes hzero hparts
      omega
  · intro hnone
    have hweightless := forall_layout Layout.weightless_ofTypeDef helement (hsize.2 hnone)
    obtain ⟨v, hv⟩ := hweightless.reads
    exact ⟨v, fun w => unpack_weightless hlayout hv hn⟩

end Schema

/-- Marks carry no data, so a series of them is only counted. -/
def Sample.Marks.definitions : List TypeDef := [
  .composite ⟨"mark", [], List.nodup_nil⟩,
  .variableArray ⟨"tally", "mark", 9, .uint8, Nat.succ_pos 8, Builtin.isUnsigned_uint8,
    of_decide_eq_true rfl⟩]

namespace Schema

open Sample

/-- One byte that announces five marks is a tally of five marks, though no byte follows. -/
theorem exists_unpack_announced_ok :
    ∃ s, build "marks" "1.0.0" Marks.definitions = .ok s ∧ ([] : List UInt8).length < 5 ∧
      s.unpack "tally" (LittleEndian.toBytes 1 5 ++ []) =
        .ok (.variableArray (List.replicate 5 (.composite []))) := by
  have hrun : (build "marks" "1.0.0" Marks.definitions).map (fun s =>
      s.unpack "tally" (LittleEndian.toBytes 1 5 ++ [])) =
        .ok (.ok (.variableArray (List.replicate 5 (.composite [])))) := by
    rfl
  obtain ⟨s, hs, hunpack⟩ := exists_of_map_eq_ok hrun
  exact ⟨s, hs, Nat.succ_pos 4, hunpack⟩

/-- Samples take six bytes each: a series that announces three of them in front of two bytes is
refused. -/
theorem unpack_announced_series :
    ∃ s, Lab.schema = .ok s ∧
      (∃ fault, s.unpack "series" (LittleEndian.toBytes 1 3 ++ [7, 7]) = .error fault) ∧
      ∀ i count vs r, Decoder.repeated count (s.unpackFrom "sample") ⟨i, [7, 7]⟩ = .ok vs r →
        count ≤ 2 := by
  have hrun : Lab.schema.map (fun s => (s.get? "sample").map s.encodedSize) =
      .ok (some (.fixed 6)) := by
    rfl
  obtain ⟨s, hs, hsize⟩ := exists_of_map_eq_ok hrun
  obtain ⟨e, he, hsize⟩ := Option.map_eq_some_iff.1 hsize
  obtain ⟨-, -, -, -, hdeclared, -⟩ := build_eq_ok_iff.1 hs
  have hmem : ∀ d ∈ Lab.definitions, d ∈ s.definitions :=
    fun d hd => List.mem_append_right builtins (hdeclared ▸ hd)
  have hbytes : s.encodedSize e ≠ .fixed 0 := by
    rw [hsize]
    decide
  exact ⟨s, hs, (unpack_announced hs (hmem _ (List.mem_cons_of_mem _ List.mem_cons_self)) he
    (by decide) (by decide)).1 hbytes⟩

end Schema
end WireCodec
