import WireCodec.Proofs.Acceptance
import WireCodec.Proofs.Registration

/-!
# Rendering

A builder is handed a function that refers to other types.  The code it writes for a definition
depends on a few references only, and there is such code as soon as these exist.

* `TypeDef.cited d`        the types that the code of `d` refers to;
* `Needs names x`          `x` succeeds if the types in `names` can be referred to, and depends on
                           no other reference;
* `Builder.Serves b d`     what `b` writes for `d` needs the cited types only;
* `serves_of_mem_backends` so does every builder of the three languages.
-/

namespace WireCodec

namespace TypeDef

/-- The types other than itself that the code of a definition is about: those it mentions, and the
builtin of its tag. -/
def uses (d : TypeDef) : List String :=
  d.references ++ (d.tagType?.map Builtin.name).toList

def cited (d : TypeDef) : List String :=
  d.name :: d.uses

theorem name_mem_cited (d : TypeDef) : d.name ∈ d.cited :=
  List.mem_cons_self

theorem mem_cited_of_reference {d : TypeDef} {n : String} (h : n ∈ d.references) : n ∈ d.cited :=
  List.mem_cons_of_mem _ (List.mem_append_left _ h)

theorem mem_cited_of_tagType {d : TypeDef} {b : Builtin} (h : d.tagType? = some b) :
    b.name ∈ d.cited := by
  refine List.mem_cons_of_mem _ (List.mem_append_right _ ?_)
  rw [h]
  exact List.mem_cons_self

end TypeDef

section
open TypeDef

theorem Scalar.builtin_mem_cited (t : Scalar) : t.builtin.name ∈ (TypeDef.scalar t).cited :=
  mem_cited_of_reference List.mem_cons_self

theorem Enumeration.tag_mem_cited (t : Enumeration) :
    t.tagType.name ∈ (TypeDef.enumeration t).cited :=
  mem_cited_of_tagType rfl

theorem Composite.fields_mem_cited (t : Composite) :
    ∀ n ∈ t.fields.map Field.typeName, n ∈ (TypeDef.composite t).cited :=
  fun _ hn => mem_cited_of_reference hn

theorem FixedArray.element_mem_cited (t : FixedArray) :
    t.element ∈ (TypeDef.fixedArray t).cited :=
  mem_cited_of_reference List.mem_cons_self

theorem VariableArray.size_mem_cited (t : VariableArray) :
    t.sizeType.name ∈ (TypeDef.variableArray t).cited :=
  mem_cited_of_reference List.mem_cons_self

theorem VariableArray.element_mem_cited (t : VariableArray) :
    t.element ∈ (TypeDef.variableArray t).cited :=
  mem_cited_of_reference (List.mem_cons_of_mem _ List.mem_cons_self)

theorem Group.tag_mem_cited (t : Group) : t.tagType.name ∈ (TypeDef.group t).cited :=
  mem_cited_of_tagType rfl

theorem Group.variants_mem_cited (t : Group) :
    ∀ n ∈ t.variants.map Field.typeName, n ∈ (TypeDef.group t).cited :=
  fun _ hn => mem_cited_of_reference hn

end

/-! ## Computations with references -/

section
variable {α β : Type} {names : List String}

/-- Once the types in `names` can be referred to there is a result, and it depends on no other
reference. -/
def Needs (names : List String) (x : Referrer → Except TargetError α) : Prop :=
  ∀ texts : String → String, ∃ a, ∀ refer : Referrer,
    (∀ n ∈ names, refer n = .ok (texts n)) → x refer = .ok a

theorem needs_pure (a : α) : Needs names fun _ => .ok a :=
  fun _ => ⟨a, fun _ _ => rfl⟩

theorem needs_refer {n : String} (h : n ∈ names) : Needs names fun refer => refer n :=
  fun texts => ⟨texts n, fun _ hrefer => hrefer n h⟩

theorem Needs.bind {x : Referrer → Except TargetError α}
    {f : Referrer → α → Except TargetError β} (hx : Needs names x)
    (hf : ∀ a, Needs names fun refer => f refer a) :
    Needs names fun refer => x refer >>= f refer := by
  intro texts
  obtain ⟨a, ha⟩ := hx texts
  obtain ⟨b, hb⟩ := hf a texts
  refine ⟨b, ?_⟩
  intro refer hrefer
  exact except_bind_eq_ok_iff.2 ⟨a, ha refer hrefer, hb refer hrefer⟩

theorem Needs.bind_pure {x : Referrer → Except TargetError α} {f : α → β} (hx : Needs names x) :
    Needs names fun refer => x refer >>= fun a => pure (f a) :=
  hx.bind fun a => needs_pure (f a)

theorem needs_ite {c : Prop} [Decidable c] {x y : Referrer → Except TargetError α}
    (hx : Needs names x) (hy : Needs names y) :
    Needs names fun refer => if c then x refer else y refer := by
  by_cases h : c
  · simpa only [if_pos h] using hx
  · simpa only [if_neg h] using hy

theorem needs_mapM {f : Referrer → α → Except TargetError β} {xs : List α}
    (h : ∀ x ∈ xs, Needs names fun refer => f refer x) :
    Needs names fun refer => xs.mapM (f refer) := by
  induction xs with
  | nil => exact needs_pure []
  | cons x xs ih =>
    obtain ⟨hx, hxs⟩ := List.forall_mem_cons.1 h
    simp only [List.mapM_cons]
    exact hx.bind fun _ => (ih hxs).bind_pure

theorem needs_mapM_fields {fields : List Field} {f : Field → String → β}
    (h : ∀ n ∈ fields.map Field.typeName, n ∈ names) :
    Needs names fun refer : Referrer =>
      fields.mapM fun field => refer field.typeName >>= fun text => pure (f field text) :=
  needs_mapM fun _ hfield => (needs_refer (h _ (List.mem_map_of_mem hfield))).bind_pure

/-- With the references that `names` have in fact, the result is the one that any referrer gives
which knows them. -/
theorem Needs.exists_eq_ok {x : Referrer → Except TargetError α} {refer : Referrer}
    (hx : Needs names x) (h : ∀ n ∈ names, ∃ text, refer n = .ok text) :
    ∃ a, x refer = .ok a ∧
      ∀ refer' : Referrer, (∀ n ∈ names, refer' n = refer n) → x refer' = .ok a := by
  let texts : String → String := fun n =>
    match refer n with
    | .ok text => text
    | .error _ => ""
  have htexts : ∀ n ∈ names, refer n = .ok (texts n) := by
    intro n hn
    obtain ⟨text, htext⟩ := h n hn
    have hn : texts n = text := by simp only [texts, htext]
    rw [hn, htext]
  obtain ⟨a, ha⟩ := hx texts
  exact ⟨a, ha refer htexts, fun refer' hagree =>
    ha refer' fun n hn => (hagree n hn).trans (htexts n hn)⟩

end

/-- The builder can refer to the definition, and the code it writes needs the cited types only. -/
structure Builder.Serves (b : Builder) (d : TypeDef) : Prop where
  reference : ∃ text, b.reference d = .ok text
  declaration : Needs d.cited fun refer => b.declaration refer d
  pack : Needs d.cited fun refer => b.pack refer d
  unpack : Needs d.cited fun refer => b.unpack refer d

/-! ## C -/

namespace Target.C

theorem needs_packSignature (d : TypeDef) : Needs d.cited fun refer => packSignature refer d :=
  (needs_refer d.name_mem_cited).bind_pure

theorem needs_unpackSignature (d : TypeDef) :
    Needs d.cited fun refer => unpackSignature refer d :=
  (needs_refer d.name_mem_cited).bind_pure

theorem serves_builtin (b : Builtin) : builtinBuilder.Serves (.builtin b) where
  reference := ⟨primitive b, rfl⟩
  declaration := needs_pure []
  pack := (needs_packSignature (.builtin b)).bind_pure
  unpack := (needs_unpackSignature (.builtin b)).bind_pure

theorem serves_scalar (t : Scalar) : scalarBuilder.Serves (.scalar t) where
  reference := ⟨t.name, rfl⟩
  declaration := (needs_refer t.builtin_mem_cited).bind_pure
  pack := (needs_packSignature (.scalar t)).bind_pure
  unpack := (needs_unpackSignature (.scalar t)).bind_pure

theorem serves_enumeration (t : Enumeration) : enumerationBuilder.Serves (.enumeration t) where
  reference := ⟨_, rfl⟩
  declaration := needs_pure _
  pack := (needs_refer t.tag_mem_cited).bind fun _ =>
    (needs_packSignature (.enumeration t)).bind_pure
  unpack := (needs_refer t.tag_mem_cited).bind fun _ =>
    (needs_unpackSignature (.enumeration t)).bind_pure

theorem serves_composite (t : Composite) : compositeBuilder.Serves (.composite t) where
  reference := ⟨_, rfl⟩
  declaration := (needs_mapM_fields t.fields_mem_cited).bind_pure
  pack := (needs_packSignature (.composite t)).bind_pure
  unpack := (needs_unpackSignature (.composite t)).bind_pure

theorem serves_fixedArray (t : FixedArray) : fixedArrayBuilder.Serves (.fixedArray t) where
  reference := ⟨_, rfl⟩
  declaration := (needs_refer t.element_mem_cited).bind_pure
  pack := (needs_packSignature (.fixedArray t)).bind_pure
  unpack := (needs_unpackSignature (.fixedArray t)).bind_pure

theorem serves_variableArray (t : VariableArray) :
    variableArrayBuilder.Serves (.variableArray t) where
  reference := ⟨_, rfl⟩
  declaration := (needs_refer t.size_mem_cited).bind fun _ =>
    (needs_refer t.element_mem_cited).bind_pure
  pack := (needs_packSignature (.variableArray t)).bind_pure
  unpack := (needs_unpackSignature (.variableArray t)).bind_pure

theorem serves_group (t : Group) : groupBuilder.Serves (.group t) where
  reference := ⟨_, rfl⟩
  declaration := (needs_refer t.tag_mem_cited).bind fun _ =>
    (needs_mapM_fields t.variants_mem_cited).bind_pure
  pack := (needs_packSignature (.group t)).bind_pure
  unpack := (needs_unpackSignature (.group t)).bind_pure

theorem serves (d : TypeDef) : (builder d.kind).Serves d := by
  cases d with
  | builtin b => exact serves_builtin b
  | scalar t => exact serves_scalar t
  | enumeration t => exact serves_enumeration t
  | composite t => exact serves_composite t
  | fixedArray t => exact serves_fixedArray t
  | variableArray t => exact serves_variableArray t
  | group t => exact serves_group t

end Target.C

/-! ## Ruby -/

namespace Target.Ruby

theorem needs_classHash {fields : List Field} {names : List String}
    (h : ∀ n ∈ fields.map Field.typeName, n ∈ names) :
    Needs names fun refer => classHash refer fields :=
  (needs_mapM_fields h).bind_pure

theorem serves_builtin (b : Builtin) : builtinBuilder.Serves (.builtin b) where
  reference := ⟨_, rfl⟩
  declaration := needs_pure _
  pack := needs_pure _
  unpack := needs_pure _

theorem serves_scalar (t : Scalar) : scalarBuilder.Serves (.scalar t) where
  reference := ⟨_, rfl⟩
  declaration := needs_pure []
  pack := needs_pure []
  unpack := needs_pure []

theorem serves_enumeration (t : Enumeration) : enumerationBuilder.Serves (.enumeration t) where
  reference := ⟨_, rfl⟩
  declaration := needs_pure _
  pack := (needs_refer t.tag_mem_cited).bind_pure
  unpack := (needs_refer t.tag_mem_cited).bind_pure

theorem serves_composite (t : Composite) : compositeBuilder.Serves (.composite t) where
  reference := ⟨_, rfl⟩
  declaration := needs_ite (needs_pure _) (needs_classHash t.fields_mem_cited).bind_pure
  pack := needs_pure _
  unpack := (needs_mapM_fields t.fields_mem_cited).bind_pure

theorem serves_fixedArray (t : FixedArray) : fixedArrayBuilder.Serves (.fixedArray t) where
  reference := ⟨_, rfl⟩
  declaration := (needs_refer t.element_mem_cited).bind_pure
  pack := needs_pure _
  unpack := needs_pure _

theorem serves_variableArray (t : VariableArray) :
    variableArrayBuilder.Serves (.variableArray t) where
  reference := ⟨_, rfl⟩
  declaration := (needs_refer t.size_mem_cited).bind fun _ =>
    (needs_refer t.element_mem_cited).bind_pure
  pack := needs_pure _
  unpack := needs_pure _

theorem serves_group (t : Group) : groupBuilder.Serves (.group t) where
  reference := ⟨_, rfl⟩
  declaration := (needs_classHash t.variants_mem_cited).bind fun _ =>
    (needs_refer t.tag_mem_cited).bind_pure
  pack := needs_pure _
  unpack := needs_pure _

theorem serves (d : TypeDef) : (builder d.kind).Serves d := by
  cases d with
  | builtin b => exact serves_builtin b
  | scalar t => exact serves_scalar t
  | enumeration t => exact serves_enumeration t
  | composite t => exact serves_composite t
  | fixedArray t => exact serves_fixedArray t
  | variableArray t => exact serves_variableArray t
  | group t => exact serves_group t

end Target.Ruby

/-! ## Rust -/

namespace Target.Rust

theorem serves_builtin (b : Builtin) : builtinBuilder.Serves (.builtin b) where
  reference := ⟨primitive b, rfl⟩
  declaration := needs_pure []
  pack := needs_pure []
  unpack := needs_pure []

theorem serves_scalar (t : Scalar) : scalarBuilder.Serves (.scalar t) where
  reference := ⟨_, rfl⟩
  declaration := (needs_refer t.builtin_mem_cited).bind_pure
  pack := needs_pure _
  unpack := (needs_refer t.builtin_mem_cited).bind_pure

theorem serves_enumeration (t : Enumeration) : enumerationBuilder.Serves (.enumeration t) where
  reference := ⟨_, rfl⟩
  declaration := (needs_refer t.tag_mem_cited).bind_pure
  pack := needs_pure _
  unpack := (needs_refer t.tag_mem_cited).bind_pure

theorem serves_composite (t : Composite) : compositeBuilder.Serves (.composite t) where
  reference := ⟨_, rfl⟩
  declaration := (needs_mapM_fields t.fields_mem_cited).bind_pure
  pack := needs_pure _
  unpack := (needs_mapM_fields t.fields_mem_cited).bind_pure

theorem serves_fixedArray (t : FixedArray) : fixedArrayBuilder.Serves (.fixedArray t) where
  reference := ⟨_, rfl⟩
  declaration := (needs_refer t.element_mem_cited).bind_pure
  pack := needs_pure _
  unpack := (needs_refer t.element_mem_cited).bind_pure

theorem serves_variableArray (t : VariableArray) :
    variableArrayBuilder.Serves (.variableArray t) where
  reference := ⟨_, rfl⟩
  declaration := (needs_refer t.element_mem_cited).bind_pure
  pack := (needs_refer t.size_mem_cited).bind_pure
  unpack := (needs_refer t.size_mem_cited).bind fun _ =>
    (needs_refer t.element_mem_cited).bind_pure

theorem serves_group (t : Group) : groupBuilder.Serves (.group t) where
  reference := ⟨_, rfl⟩
  declaration := (needs_refer t.tag_mem_cited).bind fun _ =>
    (needs_mapM_fields t.variants_mem_cited).bind_pure
  pack := needs_pure _
  unpack := by
    refine (needs_refer t.tag_mem_cited).bind fun _ => (needs_mapM ?_).bind_pure
    rintro ⟨v, i⟩ hv
    have hmem : v ∈ t.variants := List.fst_mem_of_mem_zipIdx hv
    exact (needs_refer (t.variants_mem_cited _ (List.mem_map_of_mem hmem))).bind_pure

theorem serves (d : TypeDef) : (builder d.kind).Serves d := by
  cases d with
  | builtin b => exact serves_builtin b
  | scalar t => exact serves_scalar t
  | enumeration t => exact serves_enumeration t
  | composite t => exact serves_composite t
  | fixedArray t => exact serves_fixedArray t
  | variableArray t => exact serves_variableArray t
  | group t => exact serves_group t

end Target.Rust

/-- Every builder of the three languages writes code that needs the cited types only. -/
theorem serves_of_mem_backends {b : Backend} (h : b ∈ backends) (d : TypeDef) :
    (b.builder d.kind).Serves d := by
  simp only [backends, List.mem_cons, List.not_mem_nil, or_false] at h
  rcases h with rfl | rfl | rfl
  · exact Target.C.serves d
  · exact Target.Ruby.serves d
  · exact Target.Rust.serves d

end WireCodec
