import WireCodec.Proofs.Rendering
import WireCodec.Proofs.Scopes

/-!
# Generating code

In a schema that was built every cited type is defined, so that every reference can be rendered.
What can go wrong is a project that is no identifier, or what the check of the language finds.

* `RenderContext.exists_reference`   every type of the schema can be referred to;
* `RenderContext.exists_code`        so declarations and routines are rendered;
* `Backend.exists_emit`              and the files laid out;
* `Registry.generate_eq_ok_iff`      generating is the check and then the files;
* `Registry.generate_iff_check`      files are generated exactly if the check passes.
-/

namespace WireCodec

/-! ## Results taken apart -/

section
variable {ε α β : Type}

theorem except_bind_eq_error_iff {x : Except ε α} {f : α → Except ε β} {e : ε} :
    (x >>= f) = .error e ↔ x = .error e ∨ ∃ a, x = .ok a ∧ f a = .error e := by
  cases x with
  | error e' =>
    refine ⟨fun h => .inl ?_, ?_⟩
    · cases h
      rfl
    · rintro (h | ⟨a, h, -⟩)
      · cases h
        rfl
      · cases h
  | ok a =>
    refine ⟨fun h => .inr ⟨a, rfl, h⟩, ?_⟩
    rintro (h | ⟨a', h, he⟩)
    · cases h
    · cases h
      exact he

theorem exists_of_forM_eq_error {check : α → Except ε Unit} {xs : List α} {e : ε}
    (h : xs.forM check = .error e) : ∃ x ∈ xs, check x = .error e := by
  induction xs with
  | nil => cases h
  | cons x xs ih =>
    rcases except_bind_eq_error_iff.1 h with hx | ⟨-, -, hxs⟩
    · exact ⟨x, List.mem_cons_self, hx⟩
    · obtain ⟨y, hy, he⟩ := ih hxs
      exact ⟨y, List.mem_cons_of_mem x hy, he⟩

theorem mapM_eq_ok_iff {f : α → Except ε β} {xs : List α} {ys : List β} :
    xs.mapM f = .ok ys ↔ List.Forall₂ (fun x y => f x = .ok y) xs ys := by
  induction xs generalizing ys with
  | nil =>
    rw [List.forall₂_nil_left_iff]
    exact ⟨fun h => (Except.ok.inj h).symm, fun h => congrArg Except.ok h.symm⟩
  | cons x xs ih =>
    rw [List.mapM_cons, List.forall₂_cons_left_iff, except_bind_eq_ok_iff]
    refine exists_congr fun y => ?_
    rw [except_bind_eq_ok_iff]
    refine ⟨?_, ?_⟩
    · rintro ⟨hx, zs, hzs, hend⟩
      exact ⟨zs, hx, ih.1 hzs, (Except.ok.inj hend).symm⟩
    · rintro ⟨zs, hx, hzs, hend⟩
      exact ⟨hx, zs, ih.2 hzs, congrArg Except.ok hend.symm⟩

theorem exists_mapM_eq_ok {f : α → Except ε β} {xs : List α}
    (h : ∀ x ∈ xs, ∃ y, f x = .ok y) : ∃ ys, xs.mapM f = .ok ys := by
  induction xs with
  | nil => exact ⟨[], rfl⟩
  | cons x xs ih =>
    obtain ⟨hx, hxs⟩ := List.forall_mem_cons.1 h
    obtain ⟨y, hy⟩ := hx
    obtain ⟨ys, hys⟩ := ih hxs
    exact ⟨y :: ys, mapM_eq_ok_iff.2 (.cons hy (mapM_eq_ok_iff.1 hys))⟩

end

/-! ## References -/

namespace Schema

variable {s : Schema}

theorem builtin_mem_names (s : Schema) (b : Builtin) :
    b.name ∈ s.definitions.map TypeDef.name :=
  mem_names_iff.2 (.inl ⟨b, rfl⟩)

/-- Every type that the code of a definition refers to is part of the schema. -/
theorem Consistent.cited_mem_names (h : s.Consistent) {d : TypeDef} (hd : d ∈ s.definitions) :
    ∀ n ∈ d.cited, n ∈ s.definitions.map TypeDef.name := by
  intro n hn
  rcases List.mem_cons.1 hn with rfl | hn
  · exact List.mem_map_of_mem hd
  · rcases List.mem_append.1 hn with hn | hn
    · exact h.resolved d hd n hn
    · obtain ⟨b, -, rfl⟩ := Option.map_eq_some_iff.1 (Option.mem_toList.1 hn)
      exact s.builtin_mem_names b

end Schema

namespace RenderContext

/-- The schema was built, and the builders are those of a backend. -/
structure Renders (ctx : RenderContext) (b : Backend) : Prop where
  known : b ∈ backends
  consistent : ctx.schema.Consistent
  builder : ∀ kind, ctx.builder kind = .ok (b.builder kind)

variable {ctx : RenderContext} {b : Backend} {d : TypeDef}

theorem Renders.reference_eq (h : ctx.Renders b) (hd : d ∈ ctx.schema.definitions) :
    ctx.reference d.name = (b.builder d.kind).reference d := by
  unfold reference definition
  rw [h.consistent.get?_eq_some_iff.2 ⟨hd, rfl⟩]
  show (ctx.builder d.kind >>= fun builder => builder.reference d) = _
  rw [h.builder]
  rfl

theorem Renders.exists_reference (h : ctx.Renders b) {n : String}
    (hn : n ∈ ctx.schema.definitions.map TypeDef.name) : ∃ text, ctx.reference n = .ok text := by
  obtain ⟨d, hd, rfl⟩ := List.mem_map.1 hn
  rw [h.reference_eq hd]
  exact (serves_of_mem_backends h.known d).reference

/-- What is computed from the references of cited types succeeds, and any referrer that knows them
gives the same. -/
theorem Renders.exists_of_needs (h : ctx.Renders b) (hd : d ∈ ctx.schema.definitions) {α : Type}
    {x : Referrer → Except TargetError α} (hx : Needs d.cited x) :
    ∃ a, x ctx.reference = .ok a ∧
      ∀ refer : Referrer, (∀ n ∈ d.cited, refer n = ctx.reference n) → x refer = .ok a :=
  hx.exists_eq_ok fun n hn => h.exists_reference (h.consistent.cited_mem_names hd n hn)

theorem Renders.declaration_eq (h : ctx.Renders b) (d : TypeDef) :
    ctx.declaration d = (b.builder d.kind).declaration ctx.reference d := by
  unfold declaration
  rw [h.builder]
  rfl

theorem Renders.pack_eq (h : ctx.Renders b) (d : TypeDef) :
    ctx.pack d = (b.builder d.kind).pack ctx.reference d := by
  unfold pack
  rw [h.builder]
  rfl

theorem Renders.unpack_eq (h : ctx.Renders b) (d : TypeDef) :
    ctx.unpack d = (b.builder d.kind).unpack ctx.reference d := by
  unfold unpack
  rw [h.builder]
  rfl

theorem Renders.exists_code (h : ctx.Renders b) (hd : d ∈ ctx.schema.definitions) :
    (∃ code, ctx.declaration d = .ok code) ∧ (∃ code, ctx.pack d = .ok code) ∧
      ∃ code, ctx.unpack d = .ok code := by
  have hserves := serves_of_mem_backends h.known d
  obtain ⟨declaration, hdeclaration, -⟩ := h.exists_of_needs hd hserves.declaration
  obtain ⟨pack, hpack, -⟩ := h.exists_of_needs hd hserves.pack
  obtain ⟨unpack, hunpack, -⟩ := h.exists_of_needs hd hserves.unpack
  rw [h.declaration_eq, h.pack_eq, h.unpack_eq]
  exact ⟨⟨declaration, hdeclaration⟩, ⟨pack, hpack⟩, ⟨unpack, hunpack⟩⟩

end RenderContext

/-! ## Files -/

section
open RenderContext

variable {ctx : RenderContext} {d : TypeDef}

theorem Target.C.exists_section (h : ctx.Renders backend) (hd : d ∈ ctx.schema.definitions) :
    ∃ code, renderSection ctx d = .ok code := by
  obtain ⟨⟨declaration, hdeclaration⟩, ⟨pack, hpack⟩, ⟨unpack, hunpack⟩⟩ := h.exists_code hd
  obtain ⟨packHead, hpackHead, -⟩ := h.exists_of_needs hd (needs_packSignature d)
  obtain ⟨unpackHead, hunpackHead, -⟩ := h.exists_of_needs hd (needs_unpackSignature d)
  by_cases hkind : d.kind = .builtin
  · simp only [renderSection, hdeclaration, hpack, hunpack, if_pos hkind]
    exact ⟨_, rfl⟩
  · simp only [renderSection, hdeclaration, hpack, hunpack, hpackHead, hunpackHead, if_neg hkind]
    exact ⟨_, rfl⟩

theorem Target.Ruby.exists_superclass (h : ctx.Renders backend) (d : TypeDef) :
    ∃ text, superclass ctx d = .ok text := by
  cases d with
  | scalar t => exact h.exists_reference (ctx.schema.builtin_mem_names t.builtin)
  | _ => exact ⟨_, rfl⟩

theorem Target.Ruby.exists_class (h : ctx.Renders backend) (hd : d ∈ ctx.schema.definitions) :
    ∃ code, renderClass ctx d = .ok code := by
  obtain ⟨⟨declaration, hdeclaration⟩, ⟨pack, hpack⟩, ⟨unpack, hunpack⟩⟩ := h.exists_code hd
  obtain ⟨name, hname⟩ := h.exists_reference (List.mem_map_of_mem hd)
  obtain ⟨parent, hparent⟩ := exists_superclass h d
  simp only [renderClass, hdeclaration, hpack, hunpack, hname, hparent]
  exact ⟨_, rfl⟩

theorem Target.Rust.exists_type (h : ctx.Renders backend) (hd : d ∈ ctx.schema.definitions) :
    ∃ code, renderType ctx d = .ok code := by
  obtain ⟨⟨declaration, hdeclaration⟩, ⟨pack, hpack⟩, ⟨unpack, hunpack⟩⟩ := h.exists_code hd
  simp only [renderType, hdeclaration, hpack, hunpack]
  exact ⟨_, rfl⟩

theorem Backend.exists_emit {b : Backend} (h : ctx.Renders b) :
    ∃ files, b.emitter.emit ctx = .ok files := by
  have hlisted : ∀ d ∈ ctx.schema.ordered, d ∈ ctx.schema.definitions :=
    fun d hd => h.consistent.listed.mem_iff.1 hd
  have hknown := h.known
  simp only [backends, List.mem_cons, List.not_mem_nil, or_false] at hknown
  rcases hknown with rfl | rfl | rfl
  · obtain ⟨sections, hsections⟩ :=
      exists_mapM_eq_ok fun d hd => Target.C.exists_section h (hlisted d hd)
    exact ⟨_, except_bind_eq_ok_iff.2 ⟨sections, hsections, rfl⟩⟩
  · obtain ⟨classes, hclasses⟩ :=
      exists_mapM_eq_ok fun d hd => Target.Ruby.exists_class h (hlisted d hd)
    exact ⟨_, except_bind_eq_ok_iff.2 ⟨classes, hclasses, rfl⟩⟩
  · obtain ⟨types, htypes⟩ :=
      exists_mapM_eq_ok fun d hd => Target.Rust.exists_type h (hlisted d hd)
    exact ⟨_, except_bind_eq_ok_iff.2 ⟨types, htypes, rfl⟩⟩

end

/-! ## Checks -/

/-- A fault that the check of a language reports.  Only C bounds the size of arrays. -/
def TargetError.isOfCheck (language : String) : TargetError → Bool
  | arrayTooLarge _ _ _ _ => language = Target.C.language
  | e => e.isOfNames

theorem TargetError.isOfCheck_of_isOfNames {e : TargetError} (h : e.isOfNames = true)
    (language : String) : e.isOfCheck language = true := by
  cases e with
  | arrayTooLarge language typeName count limit => cases h
  | _ => exact h

section
open TargetError

variable {ctx : RenderContext} {e : TargetError}

theorem Target.C.isOfCheck_of_check (h : check ctx = .error e) : e.isOfCheck language = true := by
  rcases except_bind_eq_error_iff.1 h with hdefinitions | ⟨-, -, hscopes⟩
  · obtain ⟨d, -, hd⟩ := exists_of_forM_eq_error hdefinitions
    have hsize : ∀ typeName count, checkArraySize typeName count = .error e →
        e.isOfCheck language = true := by
      intro typeName count hcheck
      unfold checkArraySize at hcheck
      split at hcheck
      · cases hcheck
        rfl
      · cases hcheck
    unfold checkDefinition at hd
    split at hd
    · exact isOfCheck_of_isOfNames (isOfNames_of_checkScope hd) language
    · exact isOfCheck_of_isOfNames (isOfNames_of_checkScope hd) language
    · exact hsize _ _ hd
    · exact hsize _ _ hd
    · cases hd
  · rcases except_bind_eq_error_iff.1 hscopes with htags | ⟨-, -, hordinary⟩
    · exact isOfCheck_of_isOfNames (isOfNames_of_checkScope htags) language
    · exact isOfCheck_of_isOfNames (isOfNames_of_checkScope hordinary) language

/-- What the check of C comes to: each definition passes on its own, and in both scopes the
identifiers are distinct and none is reserved. -/
theorem Target.C.check_eq_ok_iff :
    check ctx = .ok () ↔
      (∀ d ∈ ctx.schema.declared, checkDefinition ctx.language d = .ok ()) ∧
      ((∀ n ∈ ctx.schema.declared.flatMap tagNames, n.mangled ∉ keywords ++ preludeNames) ∧
        ((ctx.schema.declared.flatMap tagNames).map MangledName.mangled).Nodup) ∧
      (∀ n ∈ ctx.schema.declared.flatMap ordinaryNames, n.mangled ∉ keywords ++ preludeNames) ∧
        ((ctx.schema.declared.flatMap ordinaryNames).map MangledName.mangled).Nodup := by
  unfold check
  rw [except_bind_eq_ok_iff]
  refine ⟨?_, ?_⟩
  · rintro ⟨⟨⟩, hdefinitions, h⟩
    obtain ⟨⟨⟩, htags, hordinary⟩ := except_bind_eq_ok_iff.1 h
    exact ⟨forM_eq_ok_iff.1 hdefinitions, checkScope_eq_ok_iff.1 htags,
      checkScope_eq_ok_iff.1 hordinary⟩
  · rintro ⟨hdefinitions, htags, hordinary⟩
    exact ⟨(), forM_eq_ok_iff.2 hdefinitions, except_bind_eq_ok_iff.2
      ⟨(), checkScope_eq_ok_iff.2 htags, checkScope_eq_ok_iff.2 hordinary⟩⟩

theorem Target.Ruby.isOfNames_of_check (h : check ctx = .error e) : e.isOfNames = true := by
  rcases except_bind_eq_error_iff.1 h with hclasses | ⟨-, -, hdefinitions⟩
  · exact isOfNames_of_checkScope hclasses
  · obtain ⟨d, -, hd⟩ := exists_of_forM_eq_error hdefinitions
    unfold checkDefinition at hd
    split at hd
    · exact isOfNames_of_checkScope hd
    · cases hd

theorem Target.Rust.isOfNames_of_check (h : check ctx = .error e) : e.isOfNames = true := by
  rcases except_bind_eq_error_iff.1 h with htypes | ⟨-, -, hdefinitions⟩
  · exact isOfNames_of_checkScope htypes
  · obtain ⟨d, -, hd⟩ := exists_of_forM_eq_error hdefinitions
    unfold checkDefinition at hd
    split at hd
    · exact isOfNames_of_checkScope hd
    · exact isOfNames_of_checkScope hd
    · exact isOfNames_of_checkScope hd
    · cases hd

theorem Backend.isOfCheck_of_check {b : Backend} (hb : b ∈ backends)
    (h : b.emitter.check ctx = .error e) : e.isOfCheck b.language = true := by
  simp only [backends, List.mem_cons, List.not_mem_nil, or_false] at hb
  rcases hb with rfl | rfl | rfl
  · exact Target.C.isOfCheck_of_check h
  · exact isOfCheck_of_isOfNames (Target.Ruby.isOfNames_of_check h) _
  · exact isOfCheck_of_isOfNames (Target.Rust.isOfNames_of_check h) _

end

/-! ## Generating -/

namespace Registry

variable {r : Registry} {b : Backend} {s : Schema} {project : String}

theorem Offers.renders_context (h : r.Offers b) (hb : b ∈ backends) (hs : s.Consistent)
    (project : String) : (r.context b.language project s).Renders b where
  known := hb
  consistent := hs
  builder := h.builder_eq

theorem generate_eq_invalidProject (hproject : Text.isIdentifier project = false)
    (language : String) :
    r.generate s language project = .error (.invalidProject project) := by
  unfold generate
  rw [hproject]
  rfl

/-- All builders are there, so that generating is the check and then the files. -/
theorem Offers.generate_eq (h : r.Offers b) (hproject : Text.isIdentifier project = true) :
    r.generate s b.language project =
      (b.emitter.check (r.context b.language project s) >>= fun _ =>
        b.emitter.emit (r.context b.language project s)) := by
  have hbuilders : (s.ordered.forM fun d => do
      let _ ← r.builder b.language d.kind : Except TargetError Unit) = .ok () := by
    refine forM_eq_ok_iff.2 fun d _ => ?_
    rw [h.builder_eq]
    rfl
  unfold generate
  rw [hproject, h.emitter_eq]
  show ((s.ordered.forM _ : Except TargetError Unit) >>= fun _ => _) = _
  rw [hbuilders]
  rfl

theorem Offers.generate_eq_ok_iff (h : r.Offers b) {files : List GeneratedFile} :
    r.generate s b.language project = .ok files ↔ Text.isIdentifier project = true ∧
      b.emitter.check (r.context b.language project s) = .ok () ∧
      b.emitter.emit (r.context b.language project s) = .ok files := by
  cases hproject : Text.isIdentifier project with
  | false =>
    rw [generate_eq_invalidProject hproject]
    refine ⟨?_, ?_⟩
    · intro hfiles
      cases hfiles
    · rintro ⟨h, -⟩
      cases h
  | true =>
    rw [h.generate_eq hproject, except_bind_eq_ok_iff]
    refine ⟨?_, ?_⟩
    · rintro ⟨⟨⟩, hcheck, hemit⟩
      exact ⟨rfl, hcheck, hemit⟩
    · rintro ⟨-, hcheck, hemit⟩
      exact ⟨(), hcheck, hemit⟩

theorem Offers.exists_generate (h : r.Offers b) (hb : b ∈ backends) (hs : s.Consistent)
    (hproject : Text.isIdentifier project = true)
    (hcheck : b.emitter.check (r.context b.language project s) = .ok ()) :
    ∃ files, r.generate s b.language project = .ok files := by
  obtain ⟨files, hfiles⟩ := Backend.exists_emit (h.renders_context hb hs project)
  exact ⟨files, h.generate_eq_ok_iff.2 ⟨hproject, hcheck, hfiles⟩⟩

/-- Files are generated exactly if the project is an identifier and the check of the language
passes.  Rendering has no faults of its own. -/
theorem generate_iff_check {name version : String} {declared : List TypeDef}
    (hs : Schema.build name version declared = .ok s) :
    ∃ r, withBackends = .ok r ∧ ∀ b ∈ backends, ∀ project,
      ((∃ files, r.generate s b.language project = .ok files) ↔
        Text.isIdentifier project = true ∧
          b.emitter.check (r.context b.language project s) = .ok ()) ∧
      ∀ e, r.generate s b.language project = .error e →
        e = .invalidProject project ∨ e.isOfCheck b.language = true := by
  obtain ⟨r, hr, hoffers⟩ := exists_withBackends
  refine ⟨r, hr, ?_⟩
  intro b hb project
  have hconsistent := Schema.consistent_of_build hs
  refine ⟨⟨?_, ?_⟩, ?_⟩
  · rintro ⟨files, hrun⟩
    obtain ⟨hproject, hcheck, -⟩ := (hoffers b hb).generate_eq_ok_iff.1 hrun
    exact ⟨hproject, hcheck⟩
  · rintro ⟨hproject, hcheck⟩
    exact (hoffers b hb).exists_generate hb hconsistent hproject hcheck
  · intro e he
    cases hproject : Text.isIdentifier project with
    | false =>
      rw [generate_eq_invalidProject hproject] at he
      cases he
      exact .inl rfl
    | true =>
      rw [(hoffers b hb).generate_eq hproject] at he
      rcases except_bind_eq_error_iff.1 he with hcheck | ⟨-, -, hemit⟩
      · exact .inr (Backend.isOfCheck_of_check hb hcheck)
      · obtain ⟨files, hfiles⟩ :=
          Backend.exists_emit ((hoffers b hb).renders_context hb hconsistent project)
        rw [hfiles] at hemit
        cases hemit

open Sample

theorem check_pairs {ctx : RenderContext} (h : ctx.schema.declared = Pairs.definitions) :
    Target.C.check ctx = .ok () := by
  rw [Target.C.check_eq_ok_iff, h]
  exact ⟨List.forall_mem_cons.2 ⟨rfl, List.forall_mem_cons.2 ⟨rfl, by simp⟩⟩, by decide, by decide⟩

theorem generate_iff_check_pairs :
    ∃ s, Schema.build "pairs" "1.0.0" Pairs.definitions = .ok s ∧
      ∃ r, withBackends = .ok r ∧
        (∃ files, r.generate s Target.C.backend.language "demo" = .ok files) ∧
        ¬ ∃ files, r.generate s Target.C.backend.language "2nd" = .ok files := by
  obtain ⟨s, hs⟩ := Pairs.exists_build
  obtain ⟨r, hr, h⟩ := generate_iff_check hs
  obtain ⟨-, -, -, -, hdeclared, -⟩ := Schema.build_eq_ok_iff.1 hs
  have hc : Target.C.backend ∈ backends := List.mem_cons_self
  refine ⟨s, hs, r, hr, (h _ hc "demo").1.2 ⟨rfl, check_pairs hdeclared⟩, ?_⟩
  intro hfiles
  exact absurd ((h _ hc "2nd").1.1 hfiles).1 (by decide)

end Registry
end WireCodec
