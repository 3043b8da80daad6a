import WireCodec.Proofs.Layouts
import WireCodec.Proofs.Lengths
import WireCodec.Schema.Size

/-!
# Sizes are the lengths of encodings

Sizes are computed with sums and products that stay at the greatest count.  Each is the length that
it stands for, as far as lengths are counted.

* `EncodedSize.cap`                  a length as far as it is counted; sums, products and greatest
                                     values of such are again such;
* `Layout.Measures layout n`         the longest encodings have length `n`, and the sizes of the
                                     layout say so as far as they count;
* `Layout.exists_measures_ofTypeDef` definitions pass this on from the parts to the whole;
* `Schema.Consistent.encodedSize_eq_varying_iff`   sizes vary exactly where a variable array or a
                                     group is reached;
* `Schema.maxEncodedLength_attained` the bound on the length holds, and is attained unless it stands
                                     at the greatest count;
* `Schema.encodedSize_exact`         a fixed size is the length of every encoding.
-/

namespace WireCodec

/-! ## Lengths as far as they are counted -/

namespace EncodedSize

def cap (n : Nat) : Nat := min n limit

theorem cap_of_le {n : Nat} (h : n ≤ limit) : cap n = n :=
  Nat.min_eq_left h

theorem le_cap {m n : Nat} (h : m ≤ n) (hm : m ≤ limit) : m ≤ cap n :=
  Nat.le_min.2 ⟨h, hm⟩

theorem cap_byteLength (b : Builtin) : cap b.byteLength = b.byteLength := by
  cases b <;> rfl

theorem add_cap (a b : Nat) : add (cap a) (cap b) = cap (a + b) := by
  unfold add cap
  omega

theorem add_byteLength (b : Builtin) (n : Nat) :
    add b.byteLength (cap n) = cap (b.byteLength + n) := by
  rw [← add_cap, cap_byteLength]

theorem max_cap (a b : Nat) : max (cap a) (cap b) = cap (max a b) := by
  unfold cap
  omega

theorem mul_cap (a b : Nat) : mul (cap a) b = cap (a * b) := by
  unfold mul cap
  rcases Nat.le_total a limit with ha | ha
  · rw [Nat.min_eq_left ha]
  · rw [Nat.min_eq_right ha]
    -- Both products exceed what is counted, unless they are zero.
    rcases Nat.eq_zero_or_pos b with rfl | hb
    · rw [Nat.mul_zero, Nat.mul_zero]
    · have hlimit : limit ≤ limit * b := Nat.le_mul_of_pos_right limit hb
      have hproduct : limit * b ≤ a * b := Nat.mul_le_mul_right b ha
      rw [Nat.min_eq_right hlimit, Nat.min_eq_right (Nat.le_trans hlimit hproduct)]

end EncodedSize

open EncodedSize

/-! ## Sizes along layouts -/

namespace Layout

/-- The longest encodings have length `n`.  The bound says so as far as it counts, and so does a
fixed size, which is then the length of all encodings. -/
structure Measures (layout : Layout) (n : Nat) : Prop where
  greatest : IsGreatest layout.lengths n
  bound : layout.maxEncodedLength = cap n
  size : layout.encodedSize = .varying ∨
    layout.encodedSize = .fixed (cap n) ∧ ∀ m ∈ layout.lengths, m = n

theorem measures_byteLength {layout : Layout} {b : Builtin}
    (hlengths : layout.lengths = {b.byteLength})
    (hbound : layout.maxEncodedLength = b.byteLength)
    (hsize : layout.encodedSize = .fixed b.byteLength) : layout.Measures b.byteLength := by
  refine ⟨?_, ?_, .inr ⟨?_, ?_⟩⟩
  · rw [hlengths]
    exact isGreatest_singleton
  · rw [hbound, cap_byteLength]
  · rw [hsize, cap_byteLength]
  · rw [hlengths]
    exact fun m hm => hm

theorem measures_number (name : String) (b : Builtin) :
    (number name b).Measures b.byteLength := by
  apply measures_byteLength (lengths_number name b)
  · rw [maxEncodedLength]
  · rw [encodedSize]

theorem measures_enumeration {name : String} {labels : List String} (hdistinct : labels.Nodup)
    (hnonempty : labels ≠ []) :
    (enumeration name labels).Measures (tagType labels.length).byteLength := by
  apply measures_byteLength (lengths_enumeration hdistinct hnonempty)
  · rw [maxEncodedLength]
  · rw [encodedSize]

section
variable {parts : List (String × Layout)} {ns : List Nat}

theorem isGreatest_of_measures (h : List.Forall₂ (fun f n => f.2.Measures n) parts ns) :
    List.Forall₂ (fun f n => IsGreatest f.2.lengths n) parts ns :=
  h.imp fun _ _ hmeasures => hmeasures.greatest

theorem sumMaxLengths_eq (h : List.Forall₂ (fun f n => f.2.Measures n) parts ns) (total : Nat) :
    sumMaxLengths (cap total) parts = cap (total + ns.sum) := by
  induction h generalizing total with
  | nil => rw [sumMaxLengths, List.sum_nil, Nat.add_zero]
  | @cons f n parts ns hf _ ih =>
    rw [sumMaxLengths, hf.bound, add_cap, ih, List.sum_cons, Nat.add_assoc]

theorem greatestMaxLength_eq (h : List.Forall₂ (fun f n => f.2.Measures n) parts ns)
    (best : Nat) : greatestMaxLength (cap best) parts = cap (ns.foldl max best) := by
  induction h generalizing best with
  | nil => rw [greatestMaxLength, List.foldl_nil]
  | @cons f n parts ns hf _ ih =>
    rw [greatestMaxLength, hf.bound, max_cap, ih, List.foldl_cons]

/-- The sizes of fields add up to a fixed one only if each field has one length. -/
theorem encodedSizeFields_eq (h : List.Forall₂ (fun f n => f.2.Measures n) parts ns)
    (total : Nat) :
    encodedSizeFields (cap total) parts = .varying ∨
      encodedSizeFields (cap total) parts = .fixed (cap (total + ns.sum)) ∧
        ∀ ms, List.Forall₂ (fun f m => m ∈ f.2.lengths) parts ms → ms = ns := by
  induction h generalizing total with
  | nil =>
    refine .inr ⟨?_, fun ms hms => List.forall₂_nil_left_iff.1 hms⟩
    rw [encodedSizeFields, List.sum_nil, Nat.add_zero]
  | @cons f n parts ns hf _ ih =>
    rcases hf.size with hvarying | ⟨hfixed, honly⟩
    · left
      rw [encodedSizeFields, hvarying]
    · have hnext : encodedSizeFields (cap total) (f :: parts) =
          encodedSizeFields (cap (total + n)) parts := by
        rw [encodedSizeFields, hfixed, ← add_cap]
      rw [hnext, List.sum_cons, ← Nat.add_assoc]
      refine (ih (total + n)).imp_right fun ⟨hsize, hrest⟩ => ⟨hsize, fun ms hms => ?_⟩
      obtain ⟨m, ms', hm, hms', rfl⟩ := List.forall₂_cons_left_iff.1 hms
      rw [honly m hm, hrest ms' hms']

theorem measures_composite {name : String} (hdistinct : (parts.map Prod.fst).Nodup)
    (h : List.Forall₂ (fun f n => f.2.Measures n) parts ns) :
    (composite name parts).Measures ns.sum := by
  have hzero : cap 0 = 0 := rfl
  have hbound := sumMaxLengths_eq h 0
  have hsize := encodedSizeFields_eq h 0
  rw [hzero, Nat.zero_add] at hbound hsize
  refine ⟨isGreatest_composite hdistinct (isGreatest_of_measures h), ?_, ?_⟩
  · rw [maxEncodedLength, hbound]
  · rw [encodedSize]
    refine hsize.imp_right fun ⟨hfixed, honly⟩ => ⟨hfixed, fun m hm => ?_⟩
    obtain ⟨ms, hms, rfl⟩ := (mem_lengths_composite hdistinct).1 hm
    rw [honly ms hms]

theorem measures_group {name : String} (hdistinct : (parts.map Prod.fst).Nodup)
    (hnonempty : parts ≠ []) (h : List.Forall₂ (fun f n => f.2.Measures n) parts ns) :
    (group name parts).Measures ((tagType parts.length).byteLength + ns.foldl max 0) := by
  have hbound : greatestMaxLength 0 parts = cap (ns.foldl max 0) := greatestMaxLength_eq h 0
  have hgreatest : ns.foldl max 0 ∈ ns ∧ ∀ m ∈ ns, m ≤ ns.foldl max 0 := by
    obtain ⟨f, rest, rfl⟩ := List.exists_cons_of_ne_nil hnonempty
    obtain ⟨n, ns, -, -, rfl⟩ := List.forall₂_cons_left_iff.1 h
    rw [List.foldl_cons, Nat.zero_max]
    exact List.max?_eq_some_iff.1 List.max?_cons'
  refine ⟨isGreatest_group hdistinct (isGreatest_of_measures h) hgreatest, ?_, .inl ?_⟩
  · rw [maxEncodedLength, hbound, add_byteLength]
  · rw [encodedSize]

end

section
variable {element : Layout} {n : Nat}

theorem measures_fixedArray (h : element.Measures n) (name : String) (count : Nat) :
    (fixedArray name count element).Measures (n * count) := by
  refine ⟨isGreatest_fixedArray h.greatest, ?_, ?_⟩
  · rw [maxEncodedLength, h.bound, mul_cap]
  · rw [encodedSize]
    rcases h.size with hvarying | ⟨hfixed, honly⟩
    · left
      rw [hvarying]
    · right
      rw [hfixed]
      refine ⟨congrArg EncodedSize.fixed (mul_cap n count), fun m hm => ?_⟩
      obtain ⟨ms, hcount, hms, rfl⟩ := mem_lengths_fixedArray.1 hm
      have hsum : ms.sum = ms.length * n :=
        List.sum_eq_card_nsmul ms n fun m hm => honly m (hms m hm)
      rw [hsum, hcount, Nat.mul_comm]

theorem measures_variableArray (h : element.Measures n) (name : String) (max : Nat)
    (sizeType : Builtin) :
    (variableArray name max sizeType element).Measures (sizeType.byteLength + n * max) := by
  refine ⟨isGreatest_variableArray h.greatest, ?_, .inl ?_⟩
  · rw [maxEncodedLength, h.bound, mul_cap, add_byteLength]
  · rw [encodedSize]

end

/-- The parts of a definition are measured together if the known layouts are. -/
theorem exists_measures_ofFields? {known : String → Option Layout} {fields : List Field}
    {parts : List (String × Layout)}
    (hknown : ∀ name part, known name = some part → ∃ n, part.Measures n)
    (h : ofFields? known fields = some parts) :
    ∃ ns, List.Forall₂ (fun f n => f.2.Measures n) parts ns :=
  exists_forall₂ (forall_of_ofFields? hknown h)

theorem exists_measures_ofTypeDef {known : String → Option Layout} {d : TypeDef}
    {layout : Layout} (hknown : ∀ name part, known name = some part → ∃ n, part.Measures n)
    (h : ofTypeDef? known d = some layout) : ∃ n, layout.Measures n := by
  cases d with
  | builtin b =>
    cases h
    exact ⟨_, measures_number b.name b⟩
  | scalar t =>
    cases h
    exact ⟨_, measures_number t.name t.builtin⟩
  | enumeration t =>
    cases h
    exact ⟨_, measures_enumeration t.distinct t.nonempty⟩
  | composite t =>
    obtain ⟨fields, hfields, rfl⟩ := Option.map_eq_some_iff.1 h
    obtain ⟨ns, hns⟩ := exists_measures_ofFields? hknown hfields
    have hnames := map_fst_eq_fieldNames (ofFields?_eq_some hfields)
    have hdistinct : (fields.map Prod.fst).Nodup := hnames ▸ t.distinct
    exact ⟨_, measures_composite hdistinct hns⟩
  | fixedArray t =>
    obtain ⟨element, helement, rfl⟩ := Option.map_eq_some_iff.1 h
    obtain ⟨n, hn⟩ := hknown t.element element helement
    exact ⟨_, measures_fixedArray hn t.name t.count⟩
  | variableArray t =>
    obtain ⟨element, helement, rfl⟩ := Option.map_eq_some_iff.1 h
    obtain ⟨n, hn⟩ := hknown t.element element helement
    exact ⟨_, measures_variableArray hn t.name t.max t.sizeType⟩
  | group t =>
    obtain ⟨variants, hvariants, rfl⟩ := Option.map_eq_some_iff.1 h
    obtain ⟨ns, hns⟩ := exists_measures_ofFields? hknown hvariants
    have hparts := ofFields?_eq_some hvariants
    have hdistinct : (variants.map Prod.fst).Nodup := map_fst_eq_fieldNames hparts ▸ t.distinct
    have hnonempty : variants ≠ [] := by
      intro hnil
      rw [hnil, List.forall₂_nil_right_iff] at hparts
      exact t.nonempty hparts
    exact ⟨_, measures_group hdistinct hnonempty hns⟩

/-! ## Sizes that vary -/

theorem encodedSizeFields_eq_varying_iff {parts : List (String × Layout)} {total : Nat} :
    encodedSizeFields total parts = .varying ↔ ∃ f ∈ parts, f.2.encodedSize = .varying := by
  induction parts generalizing total with
  | nil =>
    rw [encodedSizeFields]
    simp
  | cons f parts ih =>
    rw [encodedSizeFields, List.exists_mem_cons_iff]
    cases hsize : f.2.encodedSize with
    | varying => exact ⟨fun _ => .inl rfl, fun _ => rfl⟩
    | fixed n =>
      have hnot : ¬ EncodedSize.fixed n = .varying := fun h => nomatch h
      show encodedSizeFields (add total n) parts = .varying ↔ _
      rw [ih, or_iff_right hnot]

theorem exists_mem_parts_iff {known : String → Option Layout} {fields : List Field}
    {parts : List (String × Layout)} (h : ofFields? known fields = some parts)
    (P : Layout → Prop) :
    (∃ f ∈ parts, P f.2) ↔
      ∃ n ∈ fields.map Field.typeName, ∃ part, known n = some part ∧ P part := by
  have hparts := ofFields?_eq_some h
  refine ⟨?_, ?_⟩
  · intro ⟨part, hpart, hP⟩
    obtain ⟨f, hf, -, hknown⟩ := exists_left_of_mem hparts hpart
    exact ⟨f.typeName, List.mem_map_of_mem hf, part.2, hknown, hP⟩
  · intro ⟨n, hn, part, hpart, hP⟩
    obtain ⟨f, hf, rfl⟩ := List.mem_map.1 hn
    obtain ⟨part', hpart', -, hknown⟩ := exists_right_of_mem hparts hf
    rw [hpart] at hknown
    cases hknown
    exact ⟨part', hpart', hP⟩

/-- The size of a definition varies if the definition is a variable array or a group, or if it
mentions a type whose size varies.  Builtins are mentioned for their width only. -/
theorem encodedSize_ofTypeDef_eq_varying_iff {known : String → Option Layout} {d : TypeDef}
    {layout : Layout} (h : ofTypeDef? known d = some layout)
    (hbuiltin : ∀ (b : Builtin) part, known b.name = some part → part.encodedSize ≠ .varying) :
    layout.encodedSize = .varying ↔
      (d.kind = .variableArray ∨ d.kind = .group) ∨
        ∃ n ∈ d.references, ∃ part, known n = some part ∧ part.encodedSize = .varying := by
  cases d with
  | builtin b =>
    cases h
    simp [encodedSize, TypeDef.kind, TypeDef.references]
  | scalar t =>
    cases h
    simpa [encodedSize, TypeDef.kind, TypeDef.references] using hbuiltin t.builtin
  | enumeration t =>
    cases h
    simp [encodedSize, TypeDef.kind, TypeDef.references]
  | composite t =>
    obtain ⟨fields, hfields, rfl⟩ := Option.map_eq_some_iff.1 h
    have hparts := exists_mem_parts_iff hfields (fun part => part.encodedSize = .varying)
    rw [encodedSize, encodedSizeFields_eq_varying_iff, hparts]
    simp [TypeDef.kind, TypeDef.references]
  | fixedArray t =>
    obtain ⟨element, helement, rfl⟩ := Option.map_eq_some_iff.1 h
    have hsize : (fixedArray t.name t.count element).encodedSize = .varying ↔
        element.encodedSize = .varying := by
      rw [encodedSize]
      cases element.encodedSize <;> simp
    simp [hsize, TypeDef.kind, TypeDef.references, helement]
  | variableArray t =>
    obtain ⟨element, helement, rfl⟩ := Option.map_eq_some_iff.1 h
    simp [encodedSize, TypeDef.kind]
  | group t =>
    obtain ⟨variants, hvariants, rfl⟩ := Option.map_eq_some_iff.1 h
    simp [encodedSize, TypeDef.kind]

end Layout

/-! ## Types of a schema -/

namespace Schema

variable {name version : String} {declared : List TypeDef} {s : Schema} {n : String} {d : TypeDef}
variable {layout : Layout}

theorem exists_measures (h : s.layout? n = some layout) : ∃ k, layout.Measures k :=
  forall_layout Layout.exists_measures_ofTypeDef h

theorem Consistent.layout?_builtin (h : s.Consistent) (b : Builtin) :
    s.layout? b.name = some (.number b.name b) := by
  have hmem : TypeDef.builtin b ∈ s.definitions :=
    List.mem_append_left s.declared (mem_builtins.2 ⟨b, rfl⟩)
  obtain ⟨layout, hlayout, hdef⟩ := h.layout?_of_get? (h.get?_eq_some_iff.2 ⟨hmem, rfl⟩)
  cases hdef
  exact hlayout

theorem Consistent.encodedSize_builtin (h : s.Consistent) (b : Builtin)
    (hlayout : s.layout? b.name = some layout) : layout.encodedSize ≠ .varying := by
  rw [h.layout?_builtin b] at hlayout
  cases hlayout
  rw [Layout.encodedSize]
  intro hsize
  cases hsize

theorem Consistent.encodedSize_eq_varying_iff (h : s.Consistent) (hd : s.get? n = some d)
    (hlayout : s.layout? n = some layout) :
    layout.encodedSize = .varying ↔
      ∃ m e, Relation.ReflTransGen s.Mentions n m ∧ s.get? m = some e ∧
        (e.kind = .variableArray ∨ e.kind = .group) := by
  -- Induction on the parts of the type, one mention further on each turn.
  induction n using h.wellFounded_mentions.induction generalizing d layout with
  | _ n ih =>
    obtain ⟨layout', hlayout', hdef⟩ := h.layout?_of_get? hd
    rw [hlayout] at hlayout'
    cases hlayout'
    rw [Layout.encodedSize_ofTypeDef_eq_varying_iff hdef fun b part => h.encodedSize_builtin b]
    refine ⟨?_, ?_⟩
    · intro hvarying
      rcases hvarying with hkind | ⟨m, hm, part, hpart, hvarying⟩
      · exact ⟨n, d, .refl, hd, hkind⟩
      · obtain ⟨e, he⟩ := h.exists_get? hd hm
        have hmentions : s.Mentions n m := ⟨d, hd, hm⟩
        obtain ⟨k, f, hreach, hf, hkind⟩ := (ih m hmentions he hpart).1 hvarying
        exact ⟨k, f, .head hmentions hreach, hf, hkind⟩
    · intro ⟨k, f, hreach, hf, hkind⟩
      rcases Relation.ReflTransGen.cases_head hreach with rfl | ⟨m, ⟨d', hd', hm⟩, hreach⟩
      · rw [hd] at hf
        cases hf
        exact .inl hkind
      · rw [hd] at hd'
        cases hd'
        have hmentions : s.Mentions n m := ⟨d, hd, hm⟩
        obtain ⟨e, he⟩ := h.exists_get? hd hm
        obtain ⟨part, hpart, -⟩ := h.layout?_of_get? he
        exact .inr ⟨m, hm, part, hpart, (ih m hmentions he hpart).2 ⟨k, f, hreach, hf, hkind⟩⟩

theorem exists_layout_of_build (h : build name version declared = .ok s)
    (hd : d ∈ s.definitions) :
    ∃ layout k, s.get? d.name = some d ∧ s.layout? d.name = some layout ∧ layout.Measures k := by
  have hs := consistent_of_build h
  have hget : s.get? d.name = some d := hs.get?_eq_some_iff.2 ⟨hd, rfl⟩
  obtain ⟨layout, hlayout, -⟩ := hs.layout?_of_get? hget
  obtain ⟨k, hk⟩ := exists_measures hlayout
  exact ⟨layout, k, hget, hlayout, hk⟩

theorem maxEncodedLength_of_layout? (h : s.layout? d.name = some layout) :
    s.maxEncodedLength d = layout.maxEncodedLength := by
  unfold maxEncodedLength
  rw [h]

theorem encodedSize_of_layout? (h : s.layout? d.name = some layout) :
    s.encodedSize d = layout.encodedSize := by
  unfold encodedSize
  rw [h]

theorem length_mem_of_pack (h : s.layout? n = some layout) {v : Value} {bytes : List UInt8}
    (hpack : s.pack n v = .ok bytes) : bytes.length ∈ layout.lengths := by
  rw [pack_of_layout? h] at hpack
  exact Layout.length_mem_lengths hpack

/-- No encoding whose length is counted exceeds the bound of its type, some encoding attains the
bound unless it stands at the greatest count, and the bound of a type with a fixed size is that
size. -/
theorem maxEncodedLength_attained (h : build name version declared = .ok s)
    (hd : d ∈ s.definitions) :
    (∀ v bytes, s.pack d.name v = .ok bytes → bytes.length < 2 ^ 64 →
      bytes.length ≤ s.maxEncodedLength d) ∧
    (s.maxEncodedLength d < EncodedSize.limit →
      ∃ v bytes, s.pack d.name v = .ok bytes ∧ bytes.length = s.maxEncodedLength d) ∧
    ∀ n, s.encodedSize d = .fixed n → s.maxEncodedLength d = n := by
  obtain ⟨layout, k, -, hlayout, hk⟩ := exists_layout_of_build h hd
  rw [maxEncodedLength_of_layout? hlayout, encodedSize_of_layout? hlayout, hk.bound]
  refine ⟨?_, ?_, ?_⟩
  · intro v bytes hpack hcounted
    have hle : bytes.length ≤ k := hk.greatest.2 (length_mem_of_pack hlayout hpack)
    exact le_cap hle (Nat.le_of_lt_succ hcounted)
  · intro hbelow
    have hcap : cap k = k := by
      unfold cap at hbelow ⊢
      omega
    obtain ⟨v, bytes, hbytes, hlength⟩ := hk.greatest.1
    exact ⟨v, bytes, by rw [pack_of_layout? hlayout, hbytes], by rw [hlength, hcap]⟩
  · intro n hn
    rcases hk.size with hvarying | ⟨hfixed, -⟩
    · rw [hvarying] at hn
      cases hn
    · rw [hfixed] at hn
      exact EncodedSize.fixed.inj hn

open Sample in
theorem maxEncodedLength_attained_log :
    ∃ s d, Lab.schema = .ok s ∧ s.get? "log" = some d ∧ s.maxEncodedLength d = 26 ∧
      (∀ v bytes, s.pack "log" v = .ok bytes → bytes.length < 2 ^ 64 → bytes.length ≤ 26) ∧
      ∃ v bytes, s.pack "log" v = .ok bytes ∧ bytes.length = 26 := by
  have hrun : Lab.schema.map (fun s => (s.get? "log").map s.maxEncodedLength) = .ok (some 26) := by
    rfl
  obtain ⟨s, hs, hbound⟩ := exists_of_map_eq_ok hrun
  obtain ⟨d, hget, hbound⟩ := Option.map_eq_some_iff.1 hbound
  obtain ⟨hd, hname⟩ := (consistent_of_build hs).get?_eq_some_iff.1 hget
  obtain ⟨hsound, htight, -⟩ := maxEncodedLength_attained hs hd
  rw [hbound, hname] at hsound htight
  exact ⟨s, d, hs, hget, hbound, hsound, htight (by decide)⟩

/-- The size of a type varies exactly if the type is or reaches a variable array or a group, and a
fixed size is the length of every encoding whose length is counted. -/
theorem encodedSize_exact (h : build name version declared = .ok s) (hd : d ∈ s.definitions) :
    (s.encodedSize d = .varying ↔
      ∃ m e, Relation.ReflTransGen s.Mentions d.name m ∧ s.get? m = some e ∧
        (e.kind = .variableArray ∨ e.kind = .group)) ∧
    ∀ n, s.encodedSize d = .fixed n → ∀ v bytes, s.pack d.name v = .ok bytes →
      bytes.length < 2 ^ 64 → bytes.length = n := by
  obtain ⟨layout, k, hget, hlayout, hk⟩ := exists_layout_of_build h hd
  rw [encodedSize_of_layout? hlayout]
  refine ⟨(consistent_of_build h).encodedSize_eq_varying_iff hget hlayout, ?_⟩
  intro n hn v bytes hpack hcounted
  rcases hk.size with hvarying | ⟨hfixed, honly⟩
  · rw [hvarying] at hn
    cases hn
  · rw [hfixed] at hn
    have hlength : bytes.length = k := honly _ (length_mem_of_pack hlayout hpack)
    have hcap : cap k = k := cap_of_le (hlength ▸ Nat.le_of_lt_succ hcounted)
    rw [hlength, ← EncodedSize.fixed.inj hn, hcap]

open Sample in
theorem encodedSize_exact_sample :
    ∃ s d e, Lab.schema = .ok s ∧ s.get? "log" = some d ∧ s.get? "sample" = some e ∧
      s.encodedSize d = .varying ∧
      (∃ m f, Relation.ReflTransGen s.Mentions "log" m ∧ s.get? m = some f ∧
        (f.kind = .variableArray ∨ f.kind = .group)) ∧
      s.encodedSize e = .fixed 6 ∧
      ∀ v bytes, s.pack "sample" v = .ok bytes → bytes.length < 2 ^ 64 → bytes.length = 6 := by
  have hrun : Lab.schema.map (fun s =>
      ((s.get? "log").map s.encodedSize, (s.get? "sample").map s.encodedSize)) =
        .ok (some .varying, some (.fixed 6)) := by
    rfl
  obtain ⟨s, hs, hsizes⟩ := exists_of_map_eq_ok hrun
  obtain ⟨hlog, hsample⟩ := Prod.mk.inj hsizes
  obtain ⟨d, hget, hvarying⟩ := Option.map_eq_some_iff.1 hlog
  obtain ⟨e, hget', hfixed⟩ := Option.map_eq_some_iff.1 hsample
  obtain ⟨hd, hname⟩ := (consistent_of_build hs).get?_eq_some_iff.1 hget
  obtain ⟨he, hname'⟩ := (consistent_of_build hs).get?_eq_some_iff.1 hget'
  have hreaches := (encodedSize_exact hs hd).1.1 hvarying
  have hlength := (encodedSize_exact hs he).2 6 hfixed
  rw [hname] at hreaches
  rw [hname'] at hlength
  exact ⟨s, d, e, hs, hget, hget', hvarying, hreaches, hfixed, hlength⟩

end Schema
end WireCodec
