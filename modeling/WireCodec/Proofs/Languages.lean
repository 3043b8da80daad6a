import WireCodec.Proofs.Generating

/-!
# Languages do not interfere

A context hands the builders of every language to an emitter, and a builder gets hold of other
builders through the references it asks for.  What the emitters of the three languages do depends
on the builders of one language all the same.

* `RenderContext.Alike ctx ctx'`   the same project and schema, and the same builders of its
                                   language; the other languages may differ;
* `Emitter.Confined e`             contexts that are alike make no difference to `e`;
* `confined_of_mem_backends`       the emitters of the three languages are confined;
* `Sample.not_confined_prying`     not every emitter is;
* `Registry.generate_eq_of_agreeOn`   two registries that hold the same for a language generate the
                                   same in it.
-/

namespace WireCodec

namespace RenderContext

/-- Two contexts that differ at most in the builders of other languages. -/
structure Alike (ctx ctx' : RenderContext) : Prop where
  language : ctx.language = ctx'.language
  project : ctx.project = ctx'.project
  schema : ctx.schema = ctx'.schema
  builder : ∀ kind, ctx.builder kind = ctx'.builder kind

variable {ctx ctx' : RenderContext}

theorem Alike.reference_eq (h : ctx.Alike ctx') : ctx.reference = ctx'.reference := by
  funext typeName
  have hdefinition : ctx.definition typeName = ctx'.definition typeName := by
    unfold definition
    rw [h.schema]
  unfold reference
  simp only [hdefinition, h.builder]

theorem Alike.declaration_eq (h : ctx.Alike ctx') (d : TypeDef) :
    ctx.declaration d = ctx'.declaration d := by
  unfold declaration
  rw [h.builder, h.reference_eq]

theorem Alike.pack_eq (h : ctx.Alike ctx') (d : TypeDef) : ctx.pack d = ctx'.pack d := by
  unfold pack
  rw [h.builder, h.reference_eq]

theorem Alike.unpack_eq (h : ctx.Alike ctx') (d : TypeDef) : ctx.unpack d = ctx'.unpack d := by
  unfold unpack
  rw [h.builder, h.reference_eq]

end RenderContext

/-! ## Emitters -/

/-- An emitter that does the same in contexts that are alike. -/
structure Emitter.Confined (e : Emitter) : Prop where
  check : ∀ ctx ctx' : RenderContext, ctx.Alike ctx' → e.check ctx = e.check ctx'
  emit : ∀ ctx ctx' : RenderContext, ctx.Alike ctx' → e.emit ctx = e.emit ctx'

section
variable {ctx ctx' : RenderContext}

theorem Target.C.renderSection_eq (h : ctx.Alike ctx') :
    renderSection ctx = renderSection ctx' := by
  funext d
  unfold renderSection
  rw [h.declaration_eq, h.pack_eq, h.unpack_eq, h.reference_eq, h.schema]

theorem Target.C.confined_emitter : emitter.Confined := by
  refine ⟨?_, ?_⟩
  · intro ctx ctx' h
    show check ctx = check ctx'
    unfold check
    rw [h.schema, h.language]
  · intro ctx ctx' h
    have hheader : header ctx = header ctx' := by
      funext sections
      unfold header
      rw [h.project, h.schema]
    have hsource : source ctx = source ctx' := by
      funext sections
      unfold source
      rw [h.project, h.schema]
    show emit ctx = emit ctx'
    unfold emit
    rw [renderSection_eq h, hheader, hsource, h.project, h.schema]

theorem Target.Ruby.renderClass_eq (h : ctx.Alike ctx') : renderClass ctx = renderClass ctx' := by
  have hsuperclass : superclass ctx = superclass ctx' := by
    funext d
    unfold superclass
    rw [h.reference_eq]
  funext d
  unfold renderClass
  rw [h.declaration_eq, h.pack_eq, h.unpack_eq, h.reference_eq, hsuperclass]

theorem Target.Ruby.confined_emitter : emitter.Confined := by
  refine ⟨?_, ?_⟩
  · intro ctx ctx' h
    show check ctx = check ctx'
    unfold check
    rw [h.schema, h.language]
  · intro ctx ctx' h
    have hsource : source ctx = source ctx' := by
      funext classes
      unfold source
      rw [h.project, h.schema]
    show emit ctx = emit ctx'
    unfold emit
    rw [renderClass_eq h, hsource, h.project, h.schema]

theorem Target.Rust.renderType_eq (h : ctx.Alike ctx') : renderType ctx = renderType ctx' := by
  funext d
  unfold renderType
  rw [h.declaration_eq, h.pack_eq, h.unpack_eq]

theorem Target.Rust.confined_emitter : emitter.Confined := by
  refine ⟨?_, ?_⟩
  · intro ctx ctx' h
    show check ctx = check ctx'
    unfold check
    rw [h.schema, h.language]
  · intro ctx ctx' h
    have hsource : source ctx = source ctx' := by
      funext types
      unfold source
      rw [h.schema]
    show emit ctx = emit ctx'
    unfold emit
    rw [renderType_eq h, hsource, h.project, h.schema]

end

theorem confined_of_mem_backends {b : Backend} (h : b ∈ backends) : b.emitter.Confined := by
  simp only [backends, List.mem_cons, List.not_mem_nil, or_false] at h
  rcases h with rfl | rfl | rfl
  · exact Target.C.confined_emitter
  · exact Target.Ruby.confined_emitter
  · exact Target.Rust.confined_emitter

/-- An emitter that asks for a builder of C, whatever its own language is. -/
def Sample.prying : Emitter where
  aliases := []
  check ctx := do
    let _ ← ctx.lookup Target.C.language .scalar
  emit _ := .ok []

/-- A context hands over enough for an emitter to depend on another language. -/
theorem Sample.not_confined_prying : ¬ Sample.prying.Confined := by
  intro h
  obtain ⟨s, -⟩ := Pairs.exists_build
  -- The second context has builders for its own language only.
  have hcheck := h.check
    ⟨"listing", "demo", s, fun _ kind => .ok (Target.C.builder kind)⟩
    ⟨"listing", "demo", s, fun language kind =>
      if language = "listing" then .ok (Target.C.builder kind)
      else .error (.unsupportedTarget language kind)⟩
    ⟨rfl, rfl, rfl, fun _ => rfl⟩
  cases hcheck

/-! ## Registries -/

namespace Registry

variable {r r' : Registry} {language : String}

theorem AgreeOn.emitter_eq (h : r.AgreeOn r' language) :
    r.emitter language = r'.emitter language := by
  unfold Registry.emitter
  rw [h.emitter]

theorem AgreeOn.builder_eq (h : r.AgreeOn r' language) :
    r.builder language = r'.builder language := by
  funext kind
  unfold Registry.builder
  rw [h.builder]

theorem AgreeOn.alike (h : r.AgreeOn r' language) (project : String) (s : Schema) :
    (r.context language project s).Alike (r'.context language project s) :=
  ⟨rfl, rfl, rfl, fun kind => congrFun h.builder_eq kind⟩

theorem Offers.agreeOn {b : Backend} (h : r.Offers b) (h' : r'.Offers b) :
    r.AgreeOn r' b.language :=
  ⟨h'.emitter.trans h.emitter.symm, fun kind => (h'.builder kind).trans (h.builder kind).symm⟩

/-- Registries that hold the same emitter and the same builders for a language generate the same
files in it or fail alike, whatever else they hold. -/
theorem generate_eq_of_agreeOn (h : r.AgreeOn r' language)
    (hemitter : ∀ e, r.emitters.lookup language = some e → ∃ b ∈ backends, e = b.emitter)
    (s : Schema) (project : String) :
    r.generate s language project = r'.generate s language project := by
  have halike := h.alike project s
  unfold generate
  rw [← h.emitter_eq, ← h.builder_eq]
  cases hlookup : r.emitters.lookup language with
  | none =>
    have hmissing : r.emitter language = .error (.unsupportedTarget language none) := by
      unfold Registry.emitter
      rw [hlookup]
    rw [hmissing]
    rfl
  | some e =>
    have hfound : r.emitter language = .ok e := by
      unfold Registry.emitter
      rw [hlookup]
    obtain ⟨b, hb, rfl⟩ := hemitter e hlookup
    have hconfined := confined_of_mem_backends hb
    simp only [hfound, hconfined.check _ _ halike, hconfined.emit _ _ halike, bind, Except.bind]

open Sample

/-- A registry that holds C alone generates the same C files as the registry of all languages. -/
theorem generate_eq_of_agreeOn_pairs :
    ∃ r r' s files, registerBackend Target.C.backend empty = .ok () r ∧ withBackends = .ok r' ∧
      r.builders.lookup (Target.Ruby.language, .scalar) = none ∧
      r'.builders.lookup (Target.Ruby.language, .scalar) = some (Target.Ruby.builder .scalar) ∧
      r.AgreeOn r' Target.C.language ∧
      Schema.build "pairs" "1.0.0" Pairs.definitions = .ok s ∧
      r.generate s Target.C.language "demo" = .ok files ∧
      r'.generate s Target.C.language "demo" = .ok files := by
  obtain ⟨r, hr, hoffers, hkept⟩ :=
    registerBackend_eq_ok (lacks_empty Target.C.backend.language)
  obtain ⟨r', hr', hoffers'⟩ := exists_withBackends
  obtain ⟨s, hs⟩ := Pairs.exists_build
  obtain ⟨-, -, -, -, hdeclared, -⟩ := Schema.build_eq_ok_iff.1 hs
  have hc : Target.C.backend ∈ backends := List.mem_cons_self
  have hruby : Target.Ruby.backend ∈ backends := List.mem_cons_of_mem _ List.mem_cons_self
  have hagree : r.AgreeOn r' Target.C.language := hoffers.agreeOn (hoffers' _ hc)
  have hemitter : ∀ e, r.emitters.lookup Target.C.language = some e →
      ∃ b ∈ backends, e = b.emitter := by
    intro e he
    have hsame : some e = some Target.C.backend.emitter := he.symm.trans hoffers.emitter
    exact ⟨Target.C.backend, hc, Option.some.inj hsame⟩
  have hdemo : Text.isIdentifier "demo" = true := by decide
  obtain ⟨files, hfiles⟩ := hoffers.exists_generate hc (Schema.consistent_of_build hs) hdemo
    (check_pairs hdeclared)
  have hequal := generate_eq_of_agreeOn hagree hemitter s "demo"
  have hlacks : r.builders.lookup (Target.Ruby.language, .scalar) = none :=
    (hkept Target.Ruby.language (by decide)).builder .scalar
  exact ⟨r, r', s, files, hr, hr', hlacks, (hoffers' _ hruby).builder .scalar, hagree, hs, hfiles,
    hequal ▸ hfiles⟩

end Registry
end WireCodec
