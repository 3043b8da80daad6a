import WireCodec.Proofs.Renaming
import WireCodec.Proofs.Sizes

/-!
# Scalars are transparent

A scalar names a builtin.  Where a definition mentions the scalar, it may as well mention the
builtin: the definitions still make up a schema, whose types read, write and measure as before.  Only
faults tell the two apart, by the name under which they report a number.

* `TypeDef.redirect old new`     a definition that mentions `new` in place of `old`;
* `Coherent.redirect`            redirected to a builtin, definitions stay coherent;
* `Layout.alike_ofTypeDef?`      a redirected definition makes a layout like the one before;
* `Schema.alike_layout`          so every type keeps its layout, up to names in faults;
* `Schema.build_redirect_alike`  and is read, written and measured as before.
-/

namespace WireCodec

/-! ## Redirected definitions -/

def redirectName (old new name : String) : String :=
  if name = old then new else name

def Field.redirect (old new : String) (f : Field) : Field :=
  { f with typeName := redirectName old new f.typeName }

section
variable (old new : String)

theorem fieldNames_redirect (fields : List Field) :
    fieldNames (fields.map (Field.redirect old new)) = fieldNames fields := by
  unfold fieldNames
  rw [List.map_map]
  rfl

namespace TypeDef

/-- The definition with its fields, elements and variants of type `old` made ones of type `new`. -/
def redirect : TypeDef → TypeDef
  | builtin b => builtin b
  | scalar t => scalar t
  | enumeration t => enumeration t
  | composite t => composite {
      name := t.name
      fields := t.fields.map (Field.redirect old new)
      distinct := (fieldNames_redirect old new t.fields).symm ▸ t.distinct }
  | fixedArray t => fixedArray { t with element := redirectName old new t.element }
  | variableArray t => variableArray { t with element := redirectName old new t.element }
  | group t => group {
      name := t.name
      variants := t.variants.map (Field.redirect old new)
      nonempty := fun h => t.nonempty (List.map_eq_nil_iff.1 h)
      distinct := (fieldNames_redirect old new t.variants).symm ▸ t.distinct
      countable := Nat.le_trans (Nat.le_of_eq (List.length_map _)) t.countable }

@[simp]
theorem name_redirect (d : TypeDef) : (d.redirect old new).name = d.name := by
  cases d <;> rfl

@[simp]
theorem kind_redirect (d : TypeDef) : (d.redirect old new).kind = d.kind := by
  cases d <;> rfl

/-- What a redirected definition mentions: builtins as before, and other names as redirected. -/
theorem mem_references_redirect {d : TypeDef} {n : String}
    (h : n ∈ (d.redirect old new).references) :
    (∃ b : Builtin, n = b.name ∧ n ∈ d.references) ∨
      ∃ m ∈ d.references, n = redirectName old new m := by
  have hfields : ∀ fields : List Field,
      n ∈ (fields.map (Field.redirect old new)).map Field.typeName →
        ∃ m ∈ fields.map Field.typeName, n = redirectName old new m := by
    intro fields hn
    rw [List.map_map] at hn
    obtain ⟨f, hf, rfl⟩ := List.mem_map.1 hn
    exact ⟨f.typeName, List.mem_map_of_mem hf, rfl⟩
  cases d with
  | builtin b => cases h
  | scalar t => exact .inl ⟨t.builtin, List.mem_singleton.1 h, h⟩
  | enumeration t => cases h
  | composite t => exact .inr (hfields t.fields h)
  | fixedArray t => exact .inr ⟨t.element, List.mem_cons_self, List.mem_singleton.1 h⟩
  | variableArray t =>
    rcases List.mem_cons.1 h with rfl | h
    · exact .inl ⟨t.sizeType, rfl, List.mem_cons_self⟩
    · exact .inr ⟨t.element, List.mem_cons_of_mem _ List.mem_cons_self,
        List.mem_singleton.1 h⟩
  | group t => exact .inr (hfields t.variants h)

theorem references_redirect_subset {d : TypeDef} {n : String}
    (h : n ∈ (d.redirect old new).references) : n = new ∨ n ∈ d.references := by
  obtain ⟨-, -, hn⟩ | ⟨m, hm, rfl⟩ := mem_references_redirect old new h
  · exact .inr hn
  · unfold redirectName
    split
    · exact .inl rfl
    · exact .inr hm

theorem not_mem_references_redirect (d : TypeDef) (hbuiltin : ∀ b : Builtin, old ≠ b.name)
    (hnew : old ≠ new) : old ∉ (d.redirect old new).references := by
  intro h
  obtain ⟨b, hb, -⟩ | ⟨m, -, hm⟩ := mem_references_redirect old new h
  · exact hbuiltin b hb
  · unfold redirectName at hm
    split at hm
    · exact hnew hm
    · next hne => exact hne hm.symm

end TypeDef

theorem map_name_redirect (defs : List TypeDef) :
    (defs.map (TypeDef.redirect old new)).map TypeDef.name = defs.map TypeDef.name := by
  rw [List.map_map]
  exact List.map_congr_left fun d _ => d.name_redirect old new

end

/-! ## Coherence -/

section
variable {declared : List TypeDef} {old : String} {b : Builtin}

theorem refers_redirect {m n : String}
    (h : Refers (declared.map (TypeDef.redirect old b.name)) m n) :
    n = b.name ∨ Refers declared m n := by
  obtain ⟨_, hmem, rfl, hn⟩ := h
  obtain ⟨d, hd, rfl⟩ := List.mem_map.1 hmem
  rcases d.references_redirect_subset old b.name hn with hnew | hn
  · exact .inl hnew
  · exact .inr ⟨d, hd, (d.name_redirect old b.name).symm, hn⟩

/-- Nothing leads on from a builtin, so a path between other names has no redirected step. -/
theorem transGen_refers_redirect (hunreserved : ∀ d ∈ declared, d.name ≠ b.name) {m n : String}
    (h : Relation.TransGen (Refers (declared.map (TypeDef.redirect old b.name))) m n)
    (hn : n ≠ b.name) : Relation.TransGen (Refers declared) m n := by
  induction h with
  | single hstep => exact .single ((refers_redirect hstep).resolve_left hn)
  | @tail k n hpath hstep ih =>
    have hk : k ≠ b.name := by
      obtain ⟨_, hmem, rfl, -⟩ := hstep
      obtain ⟨d, hd, rfl⟩ := List.mem_map.1 hmem
      rw [TypeDef.name_redirect]
      exact hunreserved d hd
    exact .tail (ih hk) ((refers_redirect hstep).resolve_left hn)

theorem Coherent.redirect (h : Coherent declared) (old : String) (b : Builtin) :
    Coherent (declared.map (TypeDef.redirect old b.name)) where
  declarable := by
    rw [List.forall_mem_map]
    intro d hd
    rw [TypeDef.kind_redirect]
    exact h.declarable d hd
  unreserved := by
    rw [List.forall_mem_map]
    intro d hd
    rw [TypeDef.name_redirect]
    exact h.unreserved d hd
  identifiers := by
    rw [List.forall_mem_map]
    intro d hd
    rw [TypeDef.name_redirect]
    exact h.identifiers d hd
  distinct := by
    rw [map_name_redirect]
    exact h.distinct
  resolved := by
    rw [List.forall_mem_map]
    intro d hd n hn
    rcases d.references_redirect_subset old b.name hn with rfl | hn
    · exact .inl ⟨b, rfl⟩
    · refine (h.resolved d hd n hn).imp_right ?_
      rintro ⟨e, he, rfl⟩
      exact ⟨_, List.mem_map_of_mem he, e.name_redirect old b.name⟩
  acyclic := by
    rw [List.forall_mem_map]
    intro d hd hcycle
    rw [TypeDef.name_redirect] at hcycle
    exact h.acyclic d hd (transGen_refers_redirect (fun e he => h.unreserved e he b) hcycle
      (h.unreserved d hd b))

end

/-! ## Layouts of redirected definitions -/

namespace Layout

section
variable {old new : String} {known known' : String → Option Layout}

theorem alikeParts_ofFields? {fields : List Field} {parts parts' : List (String × Layout)}
    (hknown : ∀ n ∈ fields.map Field.typeName, ∀ part part', known n = some part →
      known' (redirectName old new n) = some part' → Alike old new part part')
    (h : ofFields? known fields = some parts)
    (h' : ofFields? known' (fields.map (Field.redirect old new)) = some parts') :
    AlikeParts old new parts parts' := by
  have hparts := ofFields?_eq_some h
  have hparts' := List.forall₂_map_left_iff.1 (ofFields?_eq_some h')
  clear h h'
  induction hparts generalizing parts' with
  | nil =>
    cases hparts'
    exact .nil
  | @cons f part fields parts hpart _ ih =>
    cases hparts' with
    | cons hpart' hrest =>
      rw [List.map_cons, List.forall_mem_cons] at hknown
      exact .cons ⟨hpart.1.trans hpart'.1.symm, hknown.1 _ _ hpart.2 hpart'.2⟩
        (ih hknown.2 hrest)

/-- A redirected definition makes a layout like that of the definition, if the types it mentions
now have layouts like those that it mentioned. -/
theorem alike_ofTypeDef? {d : TypeDef} {layout layout' : Layout}
    (hknown : ∀ n ∈ d.references, ∀ part part', known n = some part →
      known' (redirectName old new n) = some part' → Alike old new part part')
    (h : ofTypeDef? known d = some layout)
    (h' : ofTypeDef? known' (d.redirect old new) = some layout') :
    Alike old new layout layout' := by
  cases d with
  | builtin b =>
    cases h
    cases h'
    exact alike_refl _
  | scalar t =>
    cases h
    cases h'
    exact alike_refl _
  | enumeration t =>
    cases h
    cases h'
    exact alike_refl _
  | composite t =>
    obtain ⟨fields, hfields, rfl⟩ := Option.map_eq_some_iff.1 h
    obtain ⟨fields', hfields', rfl⟩ := Option.map_eq_some_iff.1 h'
    exact (alikeParts_ofFields? hknown hfields hfields').composite t.name
  | fixedArray t =>
    obtain ⟨element, helement, rfl⟩ := Option.map_eq_some_iff.1 h
    obtain ⟨element', helement', rfl⟩ := Option.map_eq_some_iff.1 h'
    exact (hknown t.element List.mem_cons_self _ _ helement helement').fixedArray t.name t.count
  | variableArray t =>
    obtain ⟨element, helement, rfl⟩ := Option.map_eq_some_iff.1 h
    obtain ⟨element', helement', rfl⟩ := Option.map_eq_some_iff.1 h'
    have hmem : t.element ∈ (TypeDef.variableArray t).references :=
      List.mem_cons_of_mem _ List.mem_cons_self
    exact (hknown t.element hmem _ _ helement helement').variableArray t.name t.max t.sizeType
  | group t =>
    obtain ⟨variants, hvariants, rfl⟩ := Option.map_eq_some_iff.1 h
    obtain ⟨variants', hvariants', rfl⟩ := Option.map_eq_some_iff.1 h'
    exact (alikeParts_ofFields? hknown hvariants hvariants').group t.name

end

end Layout

/-! ## Schemas -/

namespace Schema

section
variable {s s' : Schema} {t : Scalar}

theorem get?_redirect {old new : String}
    (hdeclared : s'.declared = s.declared.map (TypeDef.redirect old new)) (n : String) :
    s'.get? n = (s.get? n).map (TypeDef.redirect old new) := by
  have hdefinitions : s'.definitions = s.definitions.map (TypeDef.redirect old new) := by
    unfold definitions
    rw [List.map_append, ← hdeclared]
    rfl
  have hnames : ((fun d : TypeDef => decide (d.name = n)) ∘ TypeDef.redirect old new) =
      fun d => decide (d.name = n) := by
    funext d
    rw [Function.comp_apply, TypeDef.name_redirect]
  unfold get?
  rw [hdefinitions, List.find?_map, hnames]

variable (h : s.Consistent) (h' : s'.Consistent) (ht : .scalar t ∈ s.declared)
  (hdeclared : s'.declared = s.declared.map (TypeDef.redirect t.name t.builtin.name))
include h h' ht hdeclared

theorem alike_layout {n : String} {layout layout' : Layout} (hlayout : s.layout? n = some layout)
    (hlayout' : s'.layout? n = some layout') :
    Layout.Alike t.name t.builtin.name layout layout' := by
  -- Induction on the parts of the type.  Where the scalar was, both layouts are of one number.
  induction n using h.wellFounded_mentions.induction generalizing layout layout' with
  | _ n ih =>
    cases hd : s.get? n with
    | none =>
      rw [h.layout?_eq_none hd] at hlayout
      cases hlayout
    | some d =>
      have hd' : s'.get? n = some (d.redirect t.name t.builtin.name) := by
        rw [get?_redirect hdeclared, hd]
        rfl
      obtain ⟨_, hsame, hdef⟩ := h.layout?_of_get? hd
      obtain ⟨_, hsame', hdef'⟩ := h'.layout?_of_get? hd'
      obtain rfl : layout = _ := Option.some.inj (hlayout.symm.trans hsame)
      obtain rfl : layout' = _ := Option.some.inj (hlayout'.symm.trans hsame')
      refine Layout.alike_ofTypeDef? ?_ hdef hdef'
      intro m hm part part' hpart hpart'
      unfold redirectName at hpart'
      split at hpart'
      · next hscalar =>
        have hnumber := h.layout?_of_asBuiltin? (List.mem_append_right builtins ht) rfl
        rw [hscalar, show s.layout? t.name = _ from hnumber] at hpart
        rw [h'.layout?_builtin] at hpart'
        cases hpart
        cases hpart'
        exact Layout.alike_number t.builtin
      · exact ih m ⟨d, hd, hm⟩ hpart hpart'

theorem alike_layout? (n : String) :
    (s.layout? n = none ∧ s'.layout? n = none) ∨
      ∃ layout layout', s.layout? n = some layout ∧ s'.layout? n = some layout' ∧
        Layout.Alike t.name t.builtin.name layout layout' := by
  have hget := get?_redirect hdeclared n
  cases hd : s.get? n with
  | none =>
    rw [hd] at hget
    exact .inl ⟨h.layout?_eq_none hd, h'.layout?_eq_none hget⟩
  | some d =>
    rw [hd] at hget
    obtain ⟨layout, hlayout, -⟩ := h.layout?_of_get? hd
    obtain ⟨layout', hlayout', -⟩ := h'.layout?_of_get? hget
    exact .inr ⟨layout, layout', hlayout, hlayout',
      alike_layout h h' ht hdeclared hlayout hlayout'⟩

theorem endsAlike_packInto (n : String) (v : Value) :
    EndsAlike (WireError.Renamed t.name t.builtin.name) (s.packInto n v) (s'.packInto n v) := by
  rcases alike_layout? h h' ht hdeclared n with ⟨hnone, hnone'⟩ | ⟨_, _, hsome, hsome', halike⟩
  · unfold packInto requireLayout
    rw [hnone, hnone']
    exact endsAlike_throw (.same _)
  · rw [packInto_of_layout? hsome, packInto_of_layout? hsome']
    exact halike.pack v

theorem endsAlike_unpackFrom (n : String) :
    EndsAlike (WireError.Renamed t.name t.builtin.name) (s.unpackFrom n) (s'.unpackFrom n) := by
  rcases alike_layout? h h' ht hdeclared n with ⟨hnone, hnone'⟩ | ⟨_, _, hsome, hsome', halike⟩
  · unfold unpackFrom requireLayout
    rw [hnone, hnone']
    exact endsAlike_throw (.same _)
  · rw [unpackFrom_of_layout? hsome, unpackFrom_of_layout? hsome']
    exact halike.unpack

theorem sizes_redirect {d : TypeDef} (hd : d ∈ s.definitions) :
    s'.encodedSize (d.redirect t.name t.builtin.name) = s.encodedSize d ∧
      s'.maxEncodedLength (d.redirect t.name t.builtin.name) = s.maxEncodedLength d := by
  have hget : s.get? d.name = some d := h.get?_eq_some_iff.2 ⟨hd, rfl⟩
  obtain ⟨layout, hlayout, -⟩ := h.layout?_of_get? hget
  rcases alike_layout? h h' ht hdeclared d.name with
    ⟨hnone, -⟩ | ⟨layout, layout', hsome, hsome', halike⟩
  · rw [hlayout] at hnone
    cases hnone
  · have hname' : s'.layout? (d.redirect t.name t.builtin.name).name = some layout' := by
      rw [TypeDef.name_redirect]
      exact hsome'
    rw [encodedSize_of_layout? hsome, encodedSize_of_layout? hname',
      maxEncodedLength_of_layout? hsome, maxEncodedLength_of_layout? hname']
    exact ⟨halike.encodedSize.symm, halike.maxEncodedLength.symm⟩

end

/-- Where a schema mentions a scalar it may as well mention its builtin: the redirected definitions
make up a schema in which every type encodes, decodes and measures as before.  Faults differ at most
in the name under which a number is reported. -/
theorem build_redirect_alike {name version : String} {declared : List TypeDef} {s : Schema}
    (h : build name version declared = .ok s) {t : Scalar} (ht : .scalar t ∈ declared) :
    ∃ s', build name version (declared.map (TypeDef.redirect t.name t.builtin.name)) = .ok s' ∧
      (.scalar t ∈ s'.declared ∧ ∀ d ∈ s'.declared, t.name ∉ d.references) ∧
      (∀ d ∈ s.definitions,
        s'.encodedSize (d.redirect t.name t.builtin.name) = s.encodedSize d ∧
          s'.maxEncodedLength (d.redirect t.name t.builtin.name) = s.maxEncodedLength d) ∧
      (∀ typeName v,
        (∀ bytes, s.pack typeName v = .ok bytes ↔ s'.pack typeName v = .ok bytes) ∧
          ∀ e, s.pack typeName v = .error e →
            ∃ e', s'.pack typeName v = .error e' ∧ e.Renamed t.name t.builtin.name e') ∧
      ∀ typeName bytes,
        (∀ v, s.unpack typeName bytes = .ok v ↔ s'.unpack typeName bytes = .ok v) ∧
          ∀ e, s.unpack typeName bytes = .error e →
            ∃ e', s'.unpack typeName bytes = .error e' ∧ e.Renamed t.name t.builtin.name e' := by
  have hs := consistent_of_build h
  obtain ⟨hname, hversion, hcoherent, -, hdeclared, -⟩ := build_eq_ok_iff.1 h
  obtain ⟨s', h'⟩ := exists_build_iff.2
    ⟨hname, ⟨s.version, hversion⟩, hcoherent.redirect t.name t.builtin⟩
  have hs' := consistent_of_build h'
  obtain ⟨-, -, -, -, hdeclared', -⟩ := build_eq_ok_iff.1 h'
  have hunreserved : ∀ b : Builtin, t.name ≠ b.name := hcoherent.unreserved _ ht
  have hkept : .scalar t ∈ s'.declared := by
    rw [hdeclared']
    exact List.mem_map_of_mem ht
  have hgone : ∀ d ∈ s'.declared, t.name ∉ d.references := by
    rw [hdeclared', List.forall_mem_map]
    intro d _
    exact d.not_mem_references_redirect _ _ hunreserved (hunreserved t.builtin)
  rw [← hdeclared] at ht hdeclared'
  have hpack : ∀ typeName v, SameOutcome (WireError.Renamed t.name t.builtin.name)
      (s.pack typeName v) (s'.pack typeName v) := fun typeName v =>
    (endsAlike_packInto hs hs' ht hdeclared' typeName v).bytesOf
  have hunpack : ∀ typeName bytes, SameOutcome (WireError.Renamed t.name t.builtin.name)
      (s.unpack typeName bytes) (s'.unpack typeName bytes) := fun typeName bytes =>
    (endsAlike_unpackFrom hs hs' ht hdeclared' typeName).readAll .same typeName bytes
  refine ⟨s', h', ⟨hkept, hgone⟩, ?_, ?_, ?_⟩
  · intro d hd
    exact sizes_redirect hs hs' ht hdeclared' hd
  · intro typeName v
    exact ⟨(hpack typeName v).eq_ok_iff, fun e he => (hpack typeName v).eq_error he⟩
  · intro typeName bytes
    exact ⟨(hunpack typeName bytes).eq_ok_iff, fun e he => (hunpack typeName bytes).eq_error he⟩

open Sample

/-- A pair of sides is a pair of bytes; a side out of range is then reported as a byte. -/
theorem build_redirect_alike_pairs :
    ∃ s s', build "pairs" "1.0.0" Pairs.definitions = .ok s ∧
      build "pairs" "1.0.0" (Pairs.definitions.map (TypeDef.redirect "side" "uint8")) = .ok s' ∧
      s.pack "pair" (.fixedArray [.integer 7, .integer 300]) = .error (.range "side" "300") ∧
      s'.pack "pair" (.fixedArray [.integer 7, .integer 30]) = .ok [7, 30] ∧
      ∃ e, s'.pack "pair" (.fixedArray [.integer 7, .integer 300]) = .error e ∧
        WireError.Renamed "side" "uint8" (.range "side" "300") e := by
  have hrun : (build "pairs" "1.0.0" Pairs.definitions).map (fun s =>
      (s.pack "pair" (.fixedArray [.integer 7, .integer 300]),
        s.pack "pair" (.fixedArray [.integer 7, .integer 30]))) =
      .ok (.error (.range "side" "300"), .ok [7, 30]) := by
    rfl
  obtain ⟨s, hs, hpacks⟩ := exists_of_map_eq_ok hrun
  obtain ⟨hfault, hbytes⟩ := Prod.mk.inj hpacks
  have hside : .scalar ⟨"side", .uint8⟩ ∈ Pairs.definitions :=
    List.mem_cons_of_mem _ List.mem_cons_self
  obtain ⟨s', hs', -, -, hpack, -⟩ := build_redirect_alike hs hside
  obtain ⟨-, hfaults⟩ := hpack "pair" (.fixedArray [.integer 7, .integer 300])
  obtain ⟨hsame, -⟩ := hpack "pair" (.fixedArray [.integer 7, .integer 30])
  exact ⟨s, s', hs, hs', hfault, (hsame [7, 30]).1 hbytes, hfaults _ hfault⟩

end Schema
end WireCodec
