import Mathlib.Data.List.Forall2
import WireCodec.Proofs.Named

/-!
# The layouts of a schema are well-formed

What a definition guarantees on its own (distinct names, entries that a tag tells apart, a length
prefix that holds the maximum) is inherited by every layout that is made from definitions.

* `Layout.ind`                  induction on layouts; in `composite` and `group` for all parts;
* `Layout.WellFormed`           the guarantees, at every depth;
* `Layout.wellFormed_ofTypeDef` a definition makes a well-formed layout out of well-formed ones;
* `Schema.forall_layout`        what definitions pass on from the parts holds of every layout;
* `Schema.wellFormed_layout`    so every layout of a schema is well-formed.
-/

namespace WireCodec

namespace Layout

/-- Induction on layouts, with the parts of a composite or group as members of a list. -/
@[elab_as_elim]
theorem ind {motive : Layout → Prop}
    (number : ∀ name builtin, motive (.number name builtin))
    (enumeration : ∀ name labels, motive (.enumeration name labels))
    (composite : ∀ name fields, (∀ f ∈ fields, motive f.2) → motive (.composite name fields))
    (fixedArray : ∀ name count element, motive element →
      motive (.fixedArray name count element))
    (variableArray : ∀ name max sizeType element, motive element →
      motive (.variableArray name max sizeType element))
    (group : ∀ name variants, (∀ f ∈ variants, motive f.2) → motive (.group name variants))
    (layout : Layout) : motive layout := by
  refine @Layout.rec motive (fun parts => ∀ f ∈ parts, motive f.2) (fun part => motive part.2)
    number enumeration composite fixedArray variableArray group ?nil ?cons ?pair layout
  case nil =>
    intro f hf
    cases hf
  case cons =>
    intro part parts hpart hparts f hf
    rcases List.mem_cons.1 hf with rfl | hf
    · exact hpart
    · exact hparts f hf
  case pair =>
    intro name layout h
    exact h

/-- Names are distinct, tags tell all entries apart, and a length prefix holds the maximum. -/
inductive WellFormed : Layout → Prop
  | number (name : String) (builtin : Builtin) : WellFormed (.number name builtin)
  | enumeration {name : String} {labels : List String} (distinct : labels.Nodup)
      (countable : labels.length ≤ maxEntries) : WellFormed (.enumeration name labels)
  | composite {name : String} {fields : List (String × Layout)}
      (distinct : (fields.map Prod.fst).Nodup) (parts : ∀ f ∈ fields, WellFormed f.2) :
      WellFormed (.composite name fields)
  | fixedArray {name : String} {count : Nat} {element : Layout} (part : WellFormed element) :
      WellFormed (.fixedArray name count element)
  | variableArray {name : String} {max : Nat} {sizeType : Builtin} {element : Layout}
      (fits : max < twoPow (8 * sizeType.byteLength)) (part : WellFormed element) :
      WellFormed (.variableArray name max sizeType element)
  | group {name : String} {variants : List (String × Layout)}
      (distinct : (variants.map Prod.fst).Nodup) (countable : variants.length ≤ maxEntries)
      (parts : ∀ f ∈ variants, WellFormed f.2) : WellFormed (.group name variants)

theorem ofFields?_eq_some {known : String → Option Layout} {fields : List Field}
    {parts : List (String × Layout)} (h : ofFields? known fields = some parts) :
    List.Forall₂ (fun f part => part.1 = f.name ∧ known f.typeName = some part.2) fields parts := by
  unfold ofFields? at h
  induction fields generalizing parts with
  | nil =>
    rw [List.mapM_nil] at h
    cases h
    exact .nil
  | cons f fields ih =>
    rw [List.mapM_cons] at h
    obtain ⟨part, hpart, hrest⟩ := Option.bind_eq_some_iff.1 h
    obtain ⟨rest, hparts, hcons⟩ := Option.bind_eq_some_iff.1 hrest
    obtain ⟨layout, hlayout, rfl⟩ := Option.map_eq_some_iff.1 hpart
    cases hcons
    exact .cons ⟨rfl, hlayout⟩ (ih hparts)

theorem map_fst_eq_fieldNames {known : String → Option Layout} {fields : List Field}
    {parts : List (String × Layout)}
    (h : List.Forall₂ (fun f part => part.1 = f.name ∧ known f.typeName = some part.2)
      fields parts) : parts.map Prod.fst = fieldNames fields := by
  induction h with
  | nil => rfl
  | @cons f part fields parts hpart _ ih =>
    show part.1 :: parts.map Prod.fst = f.name :: fieldNames fields
    rw [hpart.1, ih]

theorem forall_of_ofFields? {known : String → Option Layout} {fields : List Field}
    {parts : List (String × Layout)} {P : Layout → Prop}
    (hknown : ∀ name layout, known name = some layout → P layout)
    (h : ofFields? known fields = some parts) : ∀ part ∈ parts, P part.2 := by
  have hfields := ofFields?_eq_some h
  clear h
  induction hfields with
  | nil =>
    intro part hpart
    cases hpart
  | @cons f part fields parts hfirst _ ih =>
    intro part' hpart'
    rcases List.mem_cons.1 hpart' with rfl | hpart'
    · exact hknown f.typeName part'.2 hfirst.2
    · exact ih part' hpart'

/-- A definition makes a well-formed layout out of well-formed ones. -/
theorem wellFormed_ofTypeDef {known : String → Option Layout} {d : TypeDef} {layout : Layout}
    (hknown : ∀ name layout, known name = some layout → layout.WellFormed)
    (h : ofTypeDef? known d = some layout) : layout.WellFormed := by
  cases d with
  | builtin b =>
    cases h
    exact .number b.name b
  | scalar t =>
    cases h
    exact .number t.name t.builtin
  | enumeration t =>
    cases h
    exact .enumeration t.distinct t.countable
  | composite t =>
    obtain ⟨fields, hfields, rfl⟩ := Option.map_eq_some_iff.1 h
    have hnames := map_fst_eq_fieldNames (ofFields?_eq_some hfields)
    refine .composite ?_ (forall_of_ofFields? hknown hfields)
    rw [hnames]
    exact t.distinct
  | fixedArray t =>
    obtain ⟨element, helement, rfl⟩ := Option.map_eq_some_iff.1 h
    exact .fixedArray (hknown t.element element helement)
  | variableArray t =>
    obtain ⟨element, helement, rfl⟩ := Option.map_eq_some_iff.1 h
    exact .variableArray t.fits (hknown t.element element helement)
  | group t =>
    obtain ⟨variants, hvariants, rfl⟩ := Option.map_eq_some_iff.1 h
    have hfields := ofFields?_eq_some hvariants
    refine .group ?_ ?_ (forall_of_ofFields? hknown hvariants)
    · rw [map_fst_eq_fieldNames hfields]
      exact t.distinct
    · rw [← hfields.length_eq]
      exact t.countable

section
variable {P : Layout → Prop}
variable (hstep : ∀ {known : String → Option Layout} {d : TypeDef} {layout : Layout},
  (∀ name part, known name = some part → P part) → ofTypeDef? known d = some layout → P layout)
include hstep

/-- What definitions pass on from the parts to the whole holds of one more layout. -/
theorem forall_learn {known : List (String × Layout)} (d : TypeDef)
    (h : ∀ entry ∈ known, P entry.2) : ∀ entry ∈ learn known d, P entry.2 := by
  unfold learn
  split
  · next layout hlayout =>
    have hnew : P layout :=
      hstep (fun name part hpart => h (name, part) (mem_of_lookup_eq_some hpart)) hlayout
    intro entry hentry
    rcases List.mem_cons.1 hentry with rfl | hentry
    · exact hnew
    · exact h entry hentry
  · exact h

theorem forall_foldl_learn {known : List (String × Layout)} (defs : List TypeDef)
    (h : ∀ entry ∈ known, P entry.2) : ∀ entry ∈ defs.foldl learn known, P entry.2 := by
  induction defs generalizing known with
  | nil => exact h
  | cons d defs ih => exact ih (forall_learn hstep d h)

end

end Layout

namespace Schema

/-- What every definition passes on from the layouts of its parts to its own holds of every layout
of a schema. -/
theorem forall_layout {P : Layout → Prop}
    (hstep : ∀ {known : String → Option Layout} {d : TypeDef} {layout : Layout},
      (∀ name part, known name = some part → P part) → Layout.ofTypeDef? known d = some layout →
        P layout)
    {s : Schema} {typeName : String} {layout : Layout} (h : s.layout? typeName = some layout) :
    P layout :=
  Layout.forall_foldl_learn hstep s.ordered (fun _ hentry => absurd hentry List.not_mem_nil) _
    (mem_of_lookup_eq_some h)

theorem wellFormed_layout {s : Schema} {typeName : String} {layout : Layout}
    (h : s.layout? typeName = some layout) : layout.WellFormed :=
  forall_layout Layout.wellFormed_ofTypeDef h

end Schema
end WireCodec
