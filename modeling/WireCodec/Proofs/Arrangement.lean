import Mathlib.Data.List.Forall2
import Mathlib.Data.List.Nodup
import WireCodec.Proofs.WellFormed

/-!
# Values in the order of their type

* `Layout.Arranged layout v w`       `w` is `v` with the fields of every composite in declaration
                                     order and nothing else changed;
* `Layout.isSinglePrecise layout v`  every float that lies on a float32 is a single precision
                                     number already;
* `perm_of_lookups`                  picking the declared fields one by one permutes the given ones;
* `Layout.WellFormed.arranged_unique`   there is one arrangement of a value at most.
-/

namespace WireCodec

/-- Rounding to single precision does not change a bit. -/
def Double.isSingle (x : Double) : Bool :=
  x.toSingle.toDouble = x

namespace Layout

mutual

/-- Every float of `v` that lies on a float32 is a single precision number. -/
def isSinglePrecise : Layout → Value → Bool
  | number _ .float32, .float x => x.isSingle
  | composite _ fields, .composite given => partsSinglePrecise given fields
  | fixedArray _ _ element, .fixedArray vs => vs.all (isSinglePrecise element)
  | variableArray _ _ _ element, .variableArray vs => vs.all (isSinglePrecise element)
  | group _ variants, .group variant payload => partsSinglePrecise [(variant, payload)] variants
  | _, _ => true

def partsSinglePrecise (given : List (String × Value)) : List (String × Layout) → Bool
  | [] => true
  | (name, layout) :: parts =>
    given.all (fun field => field.1 ≠ name || isSinglePrecise layout field.2) &&
      partsSinglePrecise given parts

end

mutual

/-- `w` is `v` with the fields of every composite in declaration order. -/
def Arranged : Layout → Value → Value → Prop
  | number _ _, v, w => w = v
  | enumeration _ _, v, w => w = v
  | composite _ fields, .composite given, .composite placed =>
    ∃ moved, given.Perm moved ∧ ArrangedFields fields moved placed
  | fixedArray _ _ element, .fixedArray vs, .fixedArray ws => List.Forall₂ (Arranged element) vs ws
  | variableArray _ _ _ element, .variableArray vs, .variableArray ws =>
    List.Forall₂ (Arranged element) vs ws
  | group _ variants, .group variant v, .group variant' w =>
    variant' = variant ∧ ArrangedPart variant v w variants
  | _, _, _ => False

/-- Both lists have the declared fields in order, and each value is arranged. -/
def ArrangedFields :
    List (String × Layout) → List (String × Value) → List (String × Value) → Prop
  | [], moved, placed => moved = [] ∧ placed = []
  | (name, layout) :: fields, moved, placed =>
    ∃ v w moved' placed', moved = (name, v) :: moved' ∧ placed = (name, w) :: placed' ∧
      Arranged layout v w ∧ ArrangedFields fields moved' placed'

def ArrangedPart (name : String) (v w : Value) : List (String × Layout) → Prop
  | [] => False
  | (name', layout) :: parts => (name' = name ∧ Arranged layout v w) ∨ ArrangedPart name v w parts

end

theorem partsSinglePrecise_iff {given : List (String × Value)} {parts : List (String × Layout)} :
    partsSinglePrecise given parts = true ↔
      ∀ part ∈ parts, ∀ v, (part.1, v) ∈ given → part.2.isSinglePrecise v = true := by
  induction parts with
  | nil =>
    refine ⟨fun _ part hpart => ?_, fun _ => rfl⟩
    cases hpart
  | cons part parts ih =>
    rw [partsSinglePrecise, Bool.and_eq_true, ih, List.forall_mem_cons, List.all_eq_true]
    refine and_congr_left fun _ => ⟨fun h v hv => ?_, fun h field hfield => ?_⟩
    · have hpart := h _ hv
      simpa using hpart
    · by_cases hname : field.1 = part.1
      · have hpart := h field.2 (hname ▸ hfield)
        simp [hpart]
      · simp [hname]

theorem arrangedPart_iff {name : String} {v w : Value} {parts : List (String × Layout)} :
    ArrangedPart name v w parts ↔ ∃ layout, (name, layout) ∈ parts ∧ layout.Arranged v w := by
  induction parts with
  | nil =>
    refine ⟨False.elim, ?_⟩
    intro hr
    obtain ⟨layout, hlayout, -⟩ := hr
    cases hlayout
  | cons part parts ih =>
    obtain ⟨name', layout⟩ := part
    rw [ArrangedPart, ih]
    refine ⟨?_, ?_⟩
    · rintro (⟨rfl, h⟩ | ⟨layout', hmem, h⟩)
      · exact ⟨layout, List.mem_cons_self, h⟩
      · exact ⟨layout', List.mem_cons_of_mem _ hmem, h⟩
    · intro hr
      obtain ⟨layout', hmem, h⟩ := hr
      rcases List.mem_cons.1 hmem with heq | hmem
      · cases heq
        exact Or.inl ⟨rfl, h⟩
      · exact Or.inr ⟨layout', hmem, h⟩

/-! The shapes of a value and of its arrangement. -/

theorem Arranged.of_composite {name : String} {fields : List (String × Layout)} {v w : Value}
    (h : (composite name fields).Arranged v w) :
    ∃ given moved placed, v = .composite given ∧ w = .composite placed ∧ given.Perm moved ∧
      ArrangedFields fields moved placed := by
  cases v with
  | composite given =>
    cases w with
    | composite placed =>
      obtain ⟨moved, hperm, hfields⟩ := h
      exact ⟨given, moved, placed, rfl, rfl, hperm, hfields⟩
    | _ => cases h
  | _ => cases h

theorem Arranged.of_fixedArray {name : String} {count : Nat} {element : Layout} {v w : Value}
    (h : (fixedArray name count element).Arranged v w) :
    ∃ vs ws, v = .fixedArray vs ∧ w = .fixedArray ws ∧ List.Forall₂ element.Arranged vs ws := by
  cases v with
  | fixedArray vs =>
    cases w with
    | fixedArray ws => exact ⟨vs, ws, rfl, rfl, h⟩
    | _ => cases h
  | _ => cases h

theorem Arranged.of_variableArray {name : String} {max : Nat} {sizeType : Builtin}
    {element : Layout} {v w : Value} (h : (variableArray name max sizeType element).Arranged v w) :
    ∃ vs ws, v = .variableArray vs ∧ w = .variableArray ws ∧
      List.Forall₂ element.Arranged vs ws := by
  cases v with
  | variableArray vs =>
    cases w with
    | variableArray ws => exact ⟨vs, ws, rfl, rfl, h⟩
    | _ => cases h
  | _ => cases h

theorem Arranged.of_group {name : String} {variants : List (String × Layout)} {v w : Value}
    (h : (group name variants).Arranged v w) :
    ∃ variant x y layout, v = .group variant x ∧ w = .group variant y ∧
      (variant, layout) ∈ variants ∧ layout.Arranged x y := by
  cases v with
  | group variant x =>
    cases w with
    | group variant' y =>
      obtain ⟨rfl, hpart⟩ := h
      obtain ⟨layout, hmem, hlayout⟩ := arrangedPart_iff.1 hpart
      exact ⟨variant', x, y, layout, rfl, rfl, hmem, hlayout⟩
    | _ => cases h
  | _ => cases h

theorem ArrangedFields.names {fields : List (String × Layout)}
    {moved placed : List (String × Value)} (h : ArrangedFields fields moved placed) :
    moved.map Prod.fst = fields.map Prod.fst ∧ placed.map Prod.fst = fields.map Prod.fst := by
  induction fields generalizing moved placed with
  | nil =>
    obtain ⟨rfl, rfl⟩ := h
    exact ⟨rfl, rfl⟩
  | cons field fields ih =>
    obtain ⟨v, w, moved', placed', rfl, rfl, -, hrest⟩ := h
    obtain ⟨hmoved, hplaced⟩ := ih hrest
    rw [List.map_cons, List.map_cons, List.map_cons, hmoved, hplaced]
    exact ⟨rfl, rfl⟩

end Layout

/-! ## Fields moved -/

/-- Picking fields of distinct names by name permutes the given fields, if none is left out. -/
theorem perm_of_lookups {given moved : List (String × Value)}
    (hgiven : (given.map Prod.fst).Nodup) (hmoved : (moved.map Prod.fst).Nodup)
    (hnames : ∀ name ∈ given.map Prod.fst, name ∈ moved.map Prod.fst)
    (hlookup : ∀ field ∈ moved, given.lookup field.1 = some field.2) : given.Perm moved := by
  rw [List.perm_ext_iff_of_nodup (List.Nodup.of_map _ hgiven) (List.Nodup.of_map _ hmoved)]
  intro h
  obtain ⟨name, v⟩ := h
  refine ⟨?_, ?_⟩
  · intro hmem
    obtain ⟨⟨name', v'⟩, hmem', rfl⟩ :=
      List.mem_map.1 (hnames name (List.mem_map_of_mem hmem))
    have hv' : (name', v') ∈ given := mem_of_lookup_eq_some (hlookup _ hmem')
    rw [eq_of_mem_of_mem hgiven hmem hv']
    exact hmem'
  · intro hmem
    exact mem_of_lookup_eq_some (hlookup _ hmem)

/-- Fields with the same distinct names in the same order are equal if they are permuted. -/
theorem eq_of_perm_of_names {as bs : List (String × Value)} (hperm : as.Perm bs)
    (hnames : as.map Prod.fst = bs.map Prod.fst) (hdistinct : (as.map Prod.fst).Nodup) :
    as = bs := by
  induction as generalizing bs with
  | nil => exact hperm.nil_eq
  | cons a as ih =>
    cases bs with
    | nil => cases hnames
    | cons b bs =>
      obtain ⟨hname, hrest⟩ := List.cons.inj hnames
      obtain ⟨hnew, hdistinct⟩ := List.nodup_cons.1 hdistinct
      have hab : a = b := by
        rcases List.mem_cons.1 (hperm.subset List.mem_cons_self) with hab | hmem
        · exact hab
        · exact absurd (hrest ▸ List.mem_map_of_mem hmem) hnew
      subst hab
      rw [ih hperm.cons_inv hrest hdistinct]

namespace Layout

theorem arrangedFields_unique {fields : List (String × Layout)}
    {moved placed placed' : List (String × Value)}
    (hparts : ∀ f ∈ fields, ∀ v w w', f.2.Arranged v w → f.2.Arranged v w' → w = w')
    (h : ArrangedFields fields moved placed) (h' : ArrangedFields fields moved placed') :
    placed = placed' := by
  induction fields generalizing moved placed placed' with
  | nil => rw [h.2, h'.2]
  | cons field fields ih =>
    obtain ⟨hfirst, hrest⟩ := List.forall_mem_cons.1 hparts
    obtain ⟨v, w, moved, placed, rfl, rfl, hw, hfields⟩ := h
    obtain ⟨v', w', moved', placed', hmoved, rfl, hw', hfields'⟩ := h'
    cases hmoved
    rw [hfirst v w w' hw hw', ih hrest hfields hfields']

theorem arrangedElements_unique {element : Layout} {vs ws ws' : List Value}
    (hpart : ∀ v w w', element.Arranged v w → element.Arranged v w' → w = w')
    (h : List.Forall₂ element.Arranged vs ws) (h' : List.Forall₂ element.Arranged vs ws') :
    ws = ws' := by
  induction h generalizing ws' with
  | nil => rw [List.forall₂_nil_left_iff.1 h']
  | @cons v w vs ws hw _ ih =>
    obtain ⟨w', rest, hw', hrest, rfl⟩ := List.forall₂_cons_left_iff.1 h'
    rw [hpart v w w' hw hw', ih hrest]

/-- Declared names are distinct, so there is one way at most to put the fields into order. -/
theorem WellFormed.arranged_unique {layout : Layout} (hlayout : layout.WellFormed)
    {v w w' : Value} (h : layout.Arranged v w) (h' : layout.Arranged v w') : w = w' := by
  induction hlayout generalizing v w w' with
  | number name builtin => exact Eq.trans h (Eq.symm h')
  | enumeration distinct countable => exact Eq.trans h (Eq.symm h')
  | @composite name fields distinct parts ih =>
    obtain ⟨given, moved, placed, rfl, rfl, hperm, hfields⟩ := h.of_composite
    obtain ⟨given, moved', placed', hgiven, rfl, hperm', hfields'⟩ := h'.of_composite
    cases hgiven
    have hmoved : moved = moved' := by
      refine eq_of_perm_of_names (hperm.symm.trans hperm') ?_ ?_
      · rw [hfields.names.1, hfields'.names.1]
      · rw [hfields.names.1]
        exact distinct
    subst hmoved
    rw [arrangedFields_unique (fun f hf v w w' => ih f hf) hfields hfields']
  | @fixedArray name count element part ih =>
    obtain ⟨vs, ws, rfl, rfl, hws⟩ := h.of_fixedArray
    obtain ⟨vs, ws', hvs, rfl, hws'⟩ := h'.of_fixedArray
    cases hvs
    rw [arrangedElements_unique (fun v w w' => ih) hws hws']
  | @variableArray name max sizeType element fits part ih =>
    obtain ⟨vs, ws, rfl, rfl, hws⟩ := h.of_variableArray
    obtain ⟨vs, ws', hvs, rfl, hws'⟩ := h'.of_variableArray
    cases hvs
    rw [arrangedElements_unique (fun v w w' => ih) hws hws']
  | @group name variants distinct countable parts ih =>
    obtain ⟨variant, x, y, layout, rfl, rfl, hmem, hy⟩ := h.of_group
    obtain ⟨variant, x, y', layout', hvariant, rfl, hmem', hy'⟩ := h'.of_group
    cases hvariant
    obtain rfl : layout = layout' := eq_of_mem_of_mem distinct hmem hmem'
    rw [ih _ hmem hy hy']

end Layout

namespace Schema

def isSinglePrecise (s : Schema) (typeName : String) (v : Value) : Bool :=
  match s.layout? typeName with
  | some layout => layout.isSinglePrecise v
  | none => true

def Arranged (s : Schema) (typeName : String) (v w : Value) : Prop :=
  ∃ layout, s.layout? typeName = some layout ∧ layout.Arranged v w

end Schema
end WireCodec
