import WireCodec.Proofs.Acceptance
import WireCodec.Proofs.WellFormed

/-!
# Every type of a schema has a layout

The layouts of a schema are learnt from its definitions in dependency order, so that the parts of
a type are known when the type comes.

* `Layout.ofTypeDef?_congr`        the layout of a definition depends on those of the types it
                                   mentions only;
* `Layout.Learnt known defs`       what holds while the definitions are gone through;
* `Schema.Consistent.layout?_of_get?`   every type of a schema has the layout that its definition
                                   makes of the layouts of the schema;
* `Schema.Consistent.wellFounded_mentions`   no type is mentioned by its own parts, at any depth.
-/

namespace WireCodec

namespace Layout

variable {known known' : String → Option Layout} {d : TypeDef}

theorem ofFields?_congr {fields : List Field}
    (h : ∀ n ∈ fields.map Field.typeName, known n = known' n) :
    ofFields? known fields = ofFields? known' fields := by
  unfold ofFields?
  induction fields with
  | nil => rfl
  | cons f fields ih =>
    rw [List.map_cons, List.forall_mem_cons] at h
    rw [List.mapM_cons, List.mapM_cons, h.1, ih h.2]

theorem ofTypeDef?_congr (h : ∀ n ∈ d.references, known n = known' n) :
    ofTypeDef? known d = ofTypeDef? known' d := by
  cases d with
  | builtin b => rfl
  | scalar t => rfl
  | enumeration t => rfl
  | composite t =>
    show (ofFields? known t.fields).map _ = (ofFields? known' t.fields).map _
    rw [ofFields?_congr h]
  | fixedArray t =>
    have helement : known t.element = known' t.element := h t.element List.mem_cons_self
    show (known t.element).map _ = (known' t.element).map _
    rw [helement]
  | variableArray t =>
    have helement : known t.element = known' t.element :=
      h t.element (List.mem_cons_of_mem _ List.mem_cons_self)
    show (known t.element).map _ = (known' t.element).map _
    rw [helement]
  | group t =>
    show (ofFields? known t.variants).map _ = (ofFields? known' t.variants).map _
    rw [ofFields?_congr h]

theorem exists_ofFields? {fields : List Field}
    (h : ∀ n ∈ fields.map Field.typeName, ∃ layout, known n = some layout) :
    ∃ parts, ofFields? known fields = some parts := by
  unfold ofFields?
  induction fields with
  | nil => exact ⟨[], rfl⟩
  | cons f fields ih =>
    rw [List.map_cons, List.forall_mem_cons] at h
    obtain ⟨layout, hlayout⟩ := h.1
    obtain ⟨parts, hparts⟩ := ih h.2
    refine ⟨(f.name, layout) :: parts, ?_⟩
    rw [List.mapM_cons, hlayout, hparts]
    rfl

theorem exists_ofTypeDef? (h : ∀ n ∈ d.references, ∃ layout, known n = some layout) :
    ∃ layout, ofTypeDef? known d = some layout := by
  cases d with
  | builtin b => exact ⟨_, rfl⟩
  | scalar t => exact ⟨_, rfl⟩
  | enumeration t => exact ⟨_, rfl⟩
  | composite t =>
    obtain ⟨fields, hfields⟩ := exists_ofFields? h
    exact ⟨composite t.name fields, by rw [ofTypeDef?, hfields]; rfl⟩
  | fixedArray t =>
    obtain ⟨element, helement⟩ := h t.element List.mem_cons_self
    exact ⟨fixedArray t.name t.count element, by rw [ofTypeDef?, helement]; rfl⟩
  | variableArray t =>
    obtain ⟨element, helement⟩ := h t.element (List.mem_cons_of_mem _ List.mem_cons_self)
    exact ⟨variableArray t.name t.max t.sizeType element, by rw [ofTypeDef?, helement]; rfl⟩
  | group t =>
    obtain ⟨variants, hvariants⟩ := exists_ofFields? h
    exact ⟨group t.name variants, by rw [ofTypeDef?, hvariants]; rfl⟩

end Layout

/-! ## Learning definitions -/

namespace Layout

/-- All of `defs` were learnt: exactly their names are known, and each has the layout that its
definition makes of the known ones. -/
structure Learnt (known : List (String × Layout)) (defs : List TypeDef) : Prop where
  names : ∀ n, n ∈ known.map Prod.fst ↔ n ∈ defs.map TypeDef.name
  mentioned : ∀ d ∈ defs, ∀ n ∈ d.references, n ∈ defs.map TypeDef.name
  layouts : ∀ d ∈ defs, ∃ layout, known.lookup d.name = some layout ∧
    ofTypeDef? (fun n => known.lookup n) d = some layout

variable {known : List (String × Layout)} {defs rest : List TypeDef} {d : TypeDef}

theorem learnt_nil : Learnt [] [] where
  names _ := Iff.rfl
  mentioned _ hd := absurd hd List.not_mem_nil
  layouts _ hd := absurd hd List.not_mem_nil

/-- A definition whose parts are known is learnt, and what was known before stays as it is. -/
theorem Learnt.learn (h : Learnt known defs) (hnew : d.name ∉ defs.map TypeDef.name)
    (hmentioned : ∀ n ∈ d.references, n ∈ defs.map TypeDef.name) :
    Learnt (learn known d) (d :: defs) := by
  have hknown : ∀ n ∈ d.references, ∃ layout, known.lookup n = some layout := by
    intro n hn
    obtain ⟨e, he, rfl⟩ := List.mem_map.1 (hmentioned n hn)
    obtain ⟨layout, hlayout, -⟩ := h.layouts e he
    exact ⟨layout, hlayout⟩
  obtain ⟨layout, hlayout⟩ := exists_ofTypeDef? hknown
  have hlearn : Layout.learn known d = (d.name, layout) :: known := by
    unfold Layout.learn
    rw [hlayout]
  -- The new name is none of those learnt before, so their look-ups go past the new entry.
  have hpast : ∀ n ∈ defs.map TypeDef.name,
      ((d.name, layout) :: known).lookup n = known.lookup n := by
    intro n hn
    have hne : (n == d.name) = false := beq_eq_false_iff_ne.2 fun heq => hnew (heq ▸ hn)
    rw [List.lookup_cons, hne]
  rw [hlearn]
  refine ⟨?_, ?_, ?_⟩
  · intro n
    rw [List.map_cons, List.map_cons, List.mem_cons, List.mem_cons, h.names]
  · intro e he n hn
    rw [List.map_cons]
    rcases List.mem_cons.1 he with rfl | he
    · exact List.mem_cons_of_mem _ (hmentioned n hn)
    · exact List.mem_cons_of_mem _ (h.mentioned e he n hn)
  · intro e he
    rcases List.mem_cons.1 he with rfl | he
    · refine ⟨layout, List.lookup_cons_self, ?_⟩
      rw [ofTypeDef?_congr fun n hn => hpast n (hmentioned n hn), hlayout]
    · obtain ⟨layout', hlookup, hdef⟩ := h.layouts e he
      refine ⟨layout', ?_, ?_⟩
      · rw [hpast e.name (List.mem_map_of_mem he), hlookup]
      · rw [ofTypeDef?_congr fun n hn => hpast n (h.mentioned e he n hn), hdef]

theorem Learnt.foldl (h : Learnt known defs) (hfirst : DefinedFirst (defs.map TypeDef.name) rest)
    (hdistinct : ((rest ++ defs).map TypeDef.name).Nodup) :
    Learnt (rest.foldl Layout.learn known) (rest.reverse ++ defs) := by
  induction rest generalizing known defs with
  | nil => exact h
  | cons d rest ih =>
    obtain ⟨hmentioned, hfirst⟩ := hfirst
    have hperm : (rest ++ d :: defs).Perm (d :: rest ++ defs) := List.perm_middle
    have hdistinct' := (hperm.map TypeDef.name).nodup_iff.2 hdistinct
    have hnew : d.name ∉ defs.map TypeDef.name := by
      rw [List.map_append, List.map_cons] at hdistinct'
      exact (List.nodup_cons.1 (List.nodup_append.1 hdistinct').2.1).1
    rw [List.foldl_cons, List.reverse_cons, List.append_assoc, List.singleton_append]
    exact ih (h.learn hnew hmentioned) hfirst hdistinct'

end Layout

namespace Schema

variable {s : Schema} {n : String} {d : TypeDef}

def Mentions (s : Schema) (a b : String) : Prop :=
  ∃ d, s.get? a = some d ∧ b ∈ d.references

theorem Consistent.learnt (h : s.Consistent) : Layout.Learnt s.layouts s.ordered.reverse := by
  have hdistinct : ((s.ordered ++ []).map TypeDef.name).Nodup := by
    rw [List.append_nil]
    exact (h.listed.map TypeDef.name).nodup_iff.2 h.distinct
  have hlearnt := Layout.learnt_nil.foldl h.definedFirst hdistinct
  rw [List.append_nil] at hlearnt
  exact hlearnt

theorem Consistent.mem_ordered (h : s.Consistent) (hd : s.get? n = some d) :
    d ∈ s.ordered ∧ d.name = n := by
  obtain ⟨hmem, hname⟩ := h.get?_eq_some_iff.1 hd
  exact ⟨h.listed.mem_iff.2 hmem, hname⟩

theorem Consistent.layout?_of_get? (h : s.Consistent) (hd : s.get? n = some d) :
    ∃ layout, s.layout? n = some layout ∧ Layout.ofTypeDef? s.layout? d = some layout := by
  obtain ⟨hmem, rfl⟩ := h.mem_ordered hd
  exact h.learnt.layouts d (List.mem_reverse.2 hmem)

/-- A builtin, or a scalar for it, is laid out as a number. -/
theorem Consistent.layout?_of_asBuiltin? (h : s.Consistent) (hd : d ∈ s.definitions) {b : Builtin}
    (hb : d.asBuiltin? = some b) : s.layout? d.name = some (.number d.name b) := by
  obtain ⟨layout, hlayout, hdef⟩ := h.layout?_of_get? (h.get?_eq_some_iff.2 ⟨hd, rfl⟩)
  rw [hlayout]
  cases d with
  | builtin b' =>
    cases hb
    exact hdef.symm
  | scalar t =>
    cases hb
    exact hdef.symm
  | _ => cases hb

theorem Consistent.layout?_eq_none (h : s.Consistent) (hn : s.get? n = none) :
    s.layout? n = none := by
  unfold layout?
  cases hlookup : s.layouts.lookup n with
  | none => rfl
  | some layout =>
    have hknown : n ∈ s.layouts.map Prod.fst :=
      List.mem_map_of_mem (mem_of_lookup_eq_some hlookup)
    obtain ⟨d, hd, hname⟩ := List.mem_map.1 ((h.learnt.names n).1 hknown)
    have hmem : d ∈ s.definitions := h.listed.mem_iff.1 (List.mem_reverse.1 hd)
    rw [h.get?_eq_some_iff.2 ⟨hmem, hname⟩] at hn
    cases hn

theorem Consistent.exists_get? (h : s.Consistent) (hd : s.get? n = some d) {m : String}
    (hm : m ∈ d.references) : ∃ e, s.get? m = some e := by
  obtain ⟨hmem, -⟩ := h.get?_eq_some_iff.1 hd
  obtain ⟨e, he, hname⟩ := List.mem_map.1 (h.resolved d hmem m hm)
  exact ⟨e, h.get?_eq_some_iff.2 ⟨he, hname⟩⟩

/-- In dependency order, a definition comes when its parts are known to come to an end. -/
theorem acc_of_definedFirst {defs : List TypeDef} {known : List String}
    (hfirst : DefinedFirst known defs) (hget : ∀ d ∈ defs, s.get? d.name = some d)
    (hknown : ∀ n ∈ known, Acc (fun b a => s.Mentions a b) n) :
    ∀ d ∈ defs, Acc (fun b a => s.Mentions a b) d.name := by
  induction defs generalizing known with
  | nil =>
    intro d hd
    cases hd
  | cons d defs ih =>
    have hacc : Acc (fun b a => s.Mentions a b) d.name := by
      refine Acc.intro d.name ?_
      rintro m ⟨e, he, hm⟩
      rw [hget d List.mem_cons_self] at he
      cases he
      exact hknown m (hfirst.1 m hm)
    refine List.forall_mem_cons.2 ⟨hacc, ?_⟩
    exact ih hfirst.2 (fun e he => hget e (List.mem_cons_of_mem d he))
      (List.forall_mem_cons.2 ⟨hacc, hknown⟩)

/-- Going from a type to its parts comes to an end. -/
theorem Consistent.wellFounded_mentions (h : s.Consistent) :
    WellFounded fun b a => s.Mentions a b := by
  refine ⟨fun a => ?_⟩
  cases ha : s.get? a with
  | none =>
    refine Acc.intro a ?_
    rintro b ⟨d, hd, -⟩
    rw [ha] at hd
    cases hd
  | some d =>
    obtain ⟨hmem, rfl⟩ := h.mem_ordered ha
    have hget : ∀ e ∈ s.ordered, s.get? e.name = some e :=
      fun e he => h.get?_eq_some_iff.2 ⟨h.listed.mem_iff.1 he, rfl⟩
    exact acc_of_definedFirst h.definedFirst hget (fun n hn => absurd hn List.not_mem_nil) d hmem

end Schema
end WireCodec
