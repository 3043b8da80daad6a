import Mathlib.Algebra.GroupWithZero.Nat
import Mathlib.Algebra.Order.BigOperators.Group.List
import Mathlib.Algebra.Order.Group.Nat
import Mathlib.Order.Bounds.Basic
import WireCodec.Proofs.Normal

/-!
# Lengths of encodings

The lengths that the encodings of a type can have, read off from the lengths of its parts, and the
greatest among them.

* `Layout.lengths layout`           the lengths of all encodings;
* `Layout.lengths_number`, `Layout.lengths_enumeration`, `Layout.mem_lengths_composite`,
  `Layout.mem_lengths_fixedArray`, `Layout.mem_lengths_variableArray`,
  `Layout.mem_lengths_group`        which lengths these are, kind by kind;
* `Layout.isGreatest_composite`, `Layout.isGreatest_fixedArray`, `Layout.isGreatest_variableArray`,
  `Layout.isGreatest_group`         the greatest length, from the greatest lengths of the parts.
-/

namespace WireCodec

theorem Builtin.exists_encodes (b : Builtin) : ∃ v bytes, b.Encodes v bytes := by
  cases hkind : b.numeric with
  | signed =>
    have hpos := twoPow_pos (8 * b.byteLength - 1)
    have hlow : -(twoPow (8 * b.byteLength - 1) : Int) ≤ 0 := by omega
    have hhigh : (0 : Int) < twoPow (8 * b.byteLength - 1) := by omega
    exact ⟨_, _, .signed hkind hlow hhigh⟩
  | unsigned => exact ⟨_, _, .unsigned hkind (twoPow_pos (8 * b.byteLength))⟩
  | float =>
    cases b with
    | float32 => exact ⟨.float ⟨0⟩, _, .single rfl⟩
    | float64 => exact ⟨.float ⟨0⟩, _, .double rfl⟩
    | _ => cases hkind

theorem Builtin.Encodes.length_eq {b : Builtin} {v : Value} {bytes : List UInt8}
    (h : b.Encodes v bytes) : bytes.length = b.byteLength := by
  cases h with
  | signed => exact LittleEndian.length_toBytes _ _
  | unsigned => exact LittleEndian.length_toBytes _ _
  | single => exact LittleEndian.length_toBytes _ _
  | double => exact LittleEndian.length_toBytes _ _

namespace Layout

open Encoder

def lengths (layout : Layout) : Set Nat :=
  {n | ∃ v bytes, bytesOf (layout.pack v) = .ok bytes ∧ bytes.length = n}

theorem length_mem_lengths {layout : Layout} {v : Value} {bytes : List UInt8}
    (h : bytesOf (layout.pack v) = .ok bytes) : bytes.length ∈ layout.lengths :=
  ⟨v, bytes, h, rfl⟩

/-! ## Kind by kind -/

theorem lengths_number (name : String) (b : Builtin) :
    (number name b).lengths = {b.byteLength} := by
  ext n
  refine ⟨?_, ?_⟩
  · intro hn
    obtain ⟨v, bytes, hbytes, rfl⟩ := hn
    exact (bytesOf_packNumber.1 hbytes).length_eq
  · rintro rfl
    obtain ⟨v, bytes, hencodes⟩ := b.exists_encodes
    exact ⟨v, bytes, bytesOf_packNumber.2 hencodes, hencodes.length_eq⟩

theorem lengths_enumeration {name : String} {labels : List String} (hdistinct : labels.Nodup)
    (hnonempty : labels ≠ []) :
    (enumeration name labels).lengths = {(tagType labels.length).byteLength} := by
  ext n
  refine ⟨?_, ?_⟩
  · intro hn
    obtain ⟨v, bytes, hbytes, rfl⟩ := hn
    obtain ⟨i, label, -, -, rfl⟩ := (bytesOf_pack_enumeration hdistinct).1 hbytes
    exact LittleEndian.length_toBytes _ _
  · rintro rfl
    obtain ⟨label, rest, rfl⟩ := List.exists_cons_of_ne_nil hnonempty
    exact ⟨.label label, _, (bytesOf_pack_enumeration hdistinct).2 ⟨0, label, rfl, rfl, rfl⟩,
      LittleEndian.length_toBytes _ _⟩

/-- Lengths that the fields can have are those of one composite, with its fields in order. -/
theorem exists_fieldBytes {fields : List (String × Layout)} {ns : List Nat}
    (h : List.Forall₂ (fun f n => n ∈ f.2.lengths) fields ns) :
    ∃ (placed : List (String × Value)) (parts : List (List UInt8)),
      placed.map Prod.fst = fields.map Prod.fst ∧ parts.map List.length = ns ∧
      ∀ given, (∀ field ∈ placed, given.lookup field.1 = some field.2) →
        List.Forall₂ (FieldBytes given) fields parts := by
  induction h with
  | nil => exact ⟨[], [], rfl, rfl, fun _ _ => .nil⟩
  | @cons f n fields ns hfirst _ ih =>
    obtain ⟨v, part, hpart, rfl⟩ := hfirst
    obtain ⟨placed, parts, hnames, rfl, hwritten⟩ := ih
    refine ⟨(f.1, v) :: placed, part :: parts, ?_, rfl, ?_⟩
    · rw [List.map_cons, List.map_cons, hnames]
    · intro given hgiven
      obtain ⟨hv, hgiven⟩ := List.forall_mem_cons.1 hgiven
      exact .cons ⟨v, hv, hpart⟩ (hwritten given hgiven)

theorem mem_lengths_composite {name : String} {fields : List (String × Layout)}
    (hdistinct : (fields.map Prod.fst).Nodup) {n : Nat} :
    n ∈ (composite name fields).lengths ↔
      ∃ ns, List.Forall₂ (fun f n => n ∈ f.2.lengths) fields ns ∧ n = ns.sum := by
  refine ⟨?_, ?_⟩
  · intro hn
    obtain ⟨v, bytes, hbytes, rfl⟩ := hn
    obtain ⟨given, parts, -, -, hparts, rfl⟩ := bytesOf_pack_composite.1 hbytes
    refine ⟨parts.map List.length, List.forall₂_map_right_iff.2 (hparts.imp ?_),
      List.length_flatten⟩
    rintro f part ⟨v, -, hpart⟩
    exact length_mem_lengths hpart
  · intro hn
    obtain ⟨ns, hns, rfl⟩ := hn
    obtain ⟨placed, parts, hnames, rfl, hwritten⟩ := exists_fieldBytes hns
    have hfound : (placed.map Prod.fst).Nodup := hnames ▸ hdistinct
    have hparts := hwritten placed fun field hfield => lookup_eq_some_of_mem hfound hfield
    exact ⟨.composite placed, parts.flatten, bytesOf_pack_composite.2
      ⟨placed, parts, rfl, checkGiven_of_names hdistinct hnames, hparts, rfl⟩,
      List.length_flatten⟩

/-- Lengths that single elements can have are those of the elements of a list. -/
theorem forall_mem_lengths_iff {element : Layout} {ns : List Nat} :
    (∀ n ∈ ns, n ∈ element.lengths) ↔
      ∃ vs parts, List.Forall₂ element.ElementBytes vs parts ∧ parts.map List.length = ns := by
  refine ⟨?_, ?_⟩
  · intro h
    induction ns with
    | nil => exact ⟨[], [], .nil, rfl⟩
    | cons n ns ih =>
      rw [List.forall_mem_cons] at h
      obtain ⟨v, part, hpart, rfl⟩ := h.1
      obtain ⟨vs, parts, hparts, rfl⟩ := ih h.2
      exact ⟨v :: vs, part :: parts, .cons hpart hparts, rfl⟩
  · rintro ⟨vs, parts, hparts, rfl⟩ n hn
    obtain ⟨part, hpart, rfl⟩ := List.mem_map.1 hn
    obtain ⟨v, -, hbytes⟩ := exists_left_of_mem hparts hpart
    exact length_mem_lengths hbytes

theorem mem_lengths_fixedArray {name : String} {count : Nat} {element : Layout} {n : Nat} :
    n ∈ (fixedArray name count element).lengths ↔
      ∃ ns : List Nat, ns.length = count ∧ (∀ m ∈ ns, m ∈ element.lengths) ∧ n = ns.sum := by
  refine ⟨?_, ?_⟩
  · intro hn
    obtain ⟨v, bytes, hbytes, rfl⟩ := hn
    obtain ⟨vs, parts, -, hcount, hparts, rfl⟩ := bytesOf_pack_fixedArray.1 hbytes
    refine ⟨parts.map List.length, ?_, forall_mem_lengths_iff.2 ⟨vs, parts, hparts, rfl⟩,
      List.length_flatten⟩
    rw [List.length_map, ← hparts.length_eq, hcount]
  · intro hn
    obtain ⟨ns, hcount, hns, rfl⟩ := hn
    obtain ⟨vs, parts, hparts, rfl⟩ := forall_mem_lengths_iff.1 hns
    rw [List.length_map, ← hparts.length_eq] at hcount
    exact ⟨.fixedArray vs, parts.flatten,
      bytesOf_pack_fixedArray.2 ⟨vs, parts, rfl, hcount, hparts, rfl⟩, List.length_flatten⟩

theorem mem_lengths_variableArray {name : String} {max : Nat} {sizeType : Builtin}
    {element : Layout} {n : Nat} :
    n ∈ (variableArray name max sizeType element).lengths ↔
      ∃ ns : List Nat, ns.length ≤ max ∧ (∀ m ∈ ns, m ∈ element.lengths) ∧
        n = sizeType.byteLength + ns.sum := by
  refine ⟨?_, ?_⟩
  · intro hn
    obtain ⟨v, bytes, hbytes, rfl⟩ := hn
    obtain ⟨vs, parts, -, hmax, hparts, rfl⟩ := bytesOf_pack_variableArray.1 hbytes
    refine ⟨parts.map List.length, ?_, forall_mem_lengths_iff.2 ⟨vs, parts, hparts, rfl⟩, ?_⟩
    · rw [List.length_map, ← hparts.length_eq]
      exact hmax
    · rw [List.length_append, LittleEndian.length_toBytes, List.length_flatten]
  · intro hn
    obtain ⟨ns, hmax, hns, rfl⟩ := hn
    obtain ⟨vs, parts, hparts, rfl⟩ := forall_mem_lengths_iff.1 hns
    rw [List.length_map, ← hparts.length_eq] at hmax
    refine ⟨.variableArray vs, _,
      bytesOf_pack_variableArray.2 ⟨vs, parts, rfl, hmax, hparts, rfl⟩, ?_⟩
    rw [List.length_append, LittleEndian.length_toBytes, List.length_flatten]

theorem mem_lengths_group {name : String} {variants : List (String × Layout)}
    (hdistinct : (variants.map Prod.fst).Nodup) {n : Nat} :
    n ∈ (group name variants).lengths ↔
      ∃ f ∈ variants, ∃ m ∈ f.2.lengths, n = (tagType variants.length).byteLength + m := by
  refine ⟨?_, ?_⟩
  · intro hn
    obtain ⟨v, bytes, hbytes, rfl⟩ := hn
    obtain ⟨i, variant, payload, layout, part, -, hi, hpart, rfl⟩ :=
      (bytesOf_pack_group hdistinct).1 hbytes
    refine ⟨_, List.mem_of_getElem? hi, _, length_mem_lengths hpart, ?_⟩
    rw [List.length_append, LittleEndian.length_toBytes]
  · intro hn
    obtain ⟨⟨variant, layout⟩, hmem, _, ⟨payload, part, hpart, rfl⟩, rfl⟩ := hn
    obtain ⟨i, hi⟩ := List.mem_iff_getElem?.1 hmem
    refine ⟨.group variant payload, _, (bytesOf_pack_group hdistinct).2
      ⟨i, variant, payload, layout, part, rfl, hi, hpart, rfl⟩, ?_⟩
    rw [List.length_append, LittleEndian.length_toBytes]

/-! ## The greatest length -/

/-- Fields of any lengths are together no longer than fields of the greatest lengths. -/
theorem sum_le_sum_of_isGreatest {fields : List (String × Layout)} {ms ns : List Nat}
    (hms : List.Forall₂ (fun f m => m ∈ f.2.lengths) fields ms)
    (hns : List.Forall₂ (fun f n => IsGreatest f.2.lengths n) fields ns) : ms.sum ≤ ns.sum := by
  induction hms generalizing ns with
  | nil =>
    cases hns
    exact Nat.le_refl 0
  | @cons f m fields ms hm _ ih =>
    obtain ⟨n, ns, hn, hrest, rfl⟩ := List.forall₂_cons_left_iff.1 hns
    rw [List.sum_cons, List.sum_cons]
    exact Nat.add_le_add (hn.2 hm) (ih hrest)

theorem isGreatest_composite {name : String} {fields : List (String × Layout)}
    (hdistinct : (fields.map Prod.fst).Nodup) {ns : List Nat}
    (h : List.Forall₂ (fun f n => IsGreatest f.2.lengths n) fields ns) :
    IsGreatest (composite name fields).lengths ns.sum := by
  refine ⟨?_, ?_⟩
  · have hmem := h.imp fun _ _ hgreatest => hgreatest.1
    exact (mem_lengths_composite hdistinct).2 ⟨ns, hmem, rfl⟩
  · intro m hm
    obtain ⟨ms, hms, rfl⟩ := (mem_lengths_composite hdistinct).1 hm
    exact sum_le_sum_of_isGreatest hms h

/-- So many elements of the greatest length are the longest list of at most as many. -/
theorem sum_le_of_isGreatest {element : Layout} {n count : Nat} (h : IsGreatest element.lengths n)
    {ms : List Nat} (hcount : ms.length ≤ count) (hms : ∀ m ∈ ms, m ∈ element.lengths) :
    ms.sum ≤ n * count := by
  have hsum : ms.sum ≤ ms.length * n := List.sum_le_card_nsmul ms n fun m hm => h.2 (hms m hm)
  calc ms.sum ≤ ms.length * n := hsum
    _ ≤ count * n := Nat.mul_le_mul_right n hcount
    _ = n * count := Nat.mul_comm count n

theorem sum_replicate_mem {element : Layout} {n : Nat} (h : n ∈ element.lengths) (count : Nat) :
    (∀ m ∈ List.replicate count n, m ∈ element.lengths) ∧
      n * count = (List.replicate count n).sum := by
  refine ⟨?_, ?_⟩
  · intro m hm
    rw [List.eq_of_mem_replicate hm]
    exact h
  · rw [List.sum_replicate_nat, Nat.mul_comm]

theorem isGreatest_fixedArray {name : String} {count n : Nat} {element : Layout}
    (h : IsGreatest element.lengths n) :
    IsGreatest (fixedArray name count element).lengths (n * count) := by
  refine ⟨?_, ?_⟩
  · exact mem_lengths_fixedArray.2 ⟨_, List.length_replicate, sum_replicate_mem h.1 count⟩
  · intro m hm
    obtain ⟨ms, hcount, hms, rfl⟩ := mem_lengths_fixedArray.1 hm
    exact sum_le_of_isGreatest h (Nat.le_of_eq hcount) hms

theorem isGreatest_variableArray {name : String} {max n : Nat} {sizeType : Builtin}
    {element : Layout} (h : IsGreatest element.lengths n) :
    IsGreatest (variableArray name max sizeType element).lengths
      (sizeType.byteLength + n * max) := by
  refine ⟨?_, ?_⟩
  · obtain ⟨hmem, hsum⟩ := sum_replicate_mem h.1 max
    refine mem_lengths_variableArray.2 ⟨_, Nat.le_of_eq List.length_replicate, hmem, ?_⟩
    rw [hsum]
  · intro m hm
    obtain ⟨ms, hmax, hms, rfl⟩ := mem_lengths_variableArray.1 hm
    exact Nat.add_le_add_left (sum_le_of_isGreatest h hmax hms) _

theorem isGreatest_group {name : String} {variants : List (String × Layout)}
    (hdistinct : (variants.map Prod.fst).Nodup) {ns : List Nat} {n : Nat}
    (hvariants : List.Forall₂ (fun f n => IsGreatest f.2.lengths n) variants ns)
    (hn : n ∈ ns ∧ ∀ m ∈ ns, m ≤ n) :
    IsGreatest (group name variants).lengths ((tagType variants.length).byteLength + n) := by
  refine ⟨?_, ?_⟩
  · obtain ⟨f, hf, hgreatest⟩ := exists_left_of_mem hvariants hn.1
    exact (mem_lengths_group hdistinct).2 ⟨f, hf, n, hgreatest.1, rfl⟩
  · intro k hk
    obtain ⟨f, hf, m, hm, rfl⟩ := (mem_lengths_group hdistinct).1 hk
    obtain ⟨top, htop, hgreatest⟩ := exists_right_of_mem hvariants hf
    have hle : m ≤ n := Nat.le_trans (hgreatest.2 hm) (hn.2 top htop)
    exact Nat.add_le_add_left hle _

end Layout
end WireCodec
