import WireCodec.Proofs.Declared

/-!
# Identifiers of C files

The check of C compares the names of a schema with each other and with those of the prelude, but not
with the routines of the builtins.  So the two files declare every name once, unless a scalar is
named like such a routine.

* `perm_ordinary`, `perm_tags`     what the files declare, from the prelude and the types;
* `IsBuiltinRoutine`               the names of the routines of builtins;
* `nodup_ordinary_iff`             names that pass the check can only clash with these;
* `identifiers_nodup_iff`          the condition under which every name has one meaning;
* `exists_identifiers_not_nodup`   a schema that passes the check and does not satisfy it.
-/

namespace WireCodec.Target.C

section
variable {ctx : RenderContext} {sections : List Section}

theorem ordinary_prelude : ordinary prelude = [
    "WIRE_PRELUDE_H", "WIRE_OK", "WIRE_ERR_RANGE", "WIRE_ERR_LENGTH", "WIRE_ERR_TRUNCATED",
    "WIRE_ERR_INVALID_ENUM", "WIRE_ERR_INVALID_VARIANT", "WIRE_ERR_BUFFER_FULL", "WIRE_TRY"] := by
  rfl

theorem tags_prelude : tags prelude = ["wire_status", "wire_buffer", "wire_reader"] := by
  rfl

theorem ordinary_flatMap (f : Section → Code) :
    ordinary (sections.flatMap f) = sections.flatMap fun code => ordinary (f code) :=
  List.flatMap_assoc

theorem tags_flatMap (f : Section → Code) :
    tags (sections.flatMap f) = sections.flatMap fun code => tags (f code) :=
  List.flatMap_assoc

theorem isWord_guardName {project : String} (h : Text.isIdentifier project = true) :
    IsWord (guardName project) :=
  IsWord.append (IsWord.toUppercase fun _ hc => Text.isIdentifierRest_of_mem h hc)
    (List.all_eq_true.1 rfl)

theorem ordinary_nil : ordinary [] = [] := rfl

theorem ordinary_cons (step : CodeStep) (code : Code) :
    ordinary (step :: code) = stepOrdinary step ++ ordinary code :=
  List.flatMap_cons

theorem stepOrdinary_eq_nil {first : String} {c e : Char} (rest : String)
    (h : [c, e] <+: first.toList) (ht : c ≠ 't') (hd : c ≠ '#' ∨ e ≠ 'd') :
    stepOrdinary (.line (first ++ rest)) = [] := by
  obtain ⟨cs, hcs⟩ := h
  have htypedef : typedef? (first ++ rest) = none := by
    simp [typedef?, ← hcs, List.isPrefixOf?, ht.symm]
  have hdefined : defined? (first ++ rest) = none := by
    rcases hd with hc | he
    · simp [defined?, wordThen?, ← hcs, List.isPrefixOf?, hc.symm]
    · simp [defined?, wordThen?, ← hcs, List.isPrefixOf?, he.symm]
  rw [stepOrdinary, htypedef, hdefined]
  rfl

theorem exists_banner_eq (s : Schema) :
    ∃ rest, banner s = "/* Generated by bwire from schema " ++ rest := by
  have hbanner : banner s = "/* Generated by bwire from schema " ++ s.name ++ " " ++
      s.version.text ++ ". Do not edit. */" := rfl
  rw [hbanner, String.append_assoc, String.append_assoc, String.append_assoc]
  exact ⟨_, rfl⟩

theorem stepOrdinary_banner (s : Schema) : stepOrdinary (.line (banner s)) = [] := by
  obtain ⟨rest, hbanner⟩ := exists_banner_eq s
  rw [hbanner]
  exact stepOrdinary_eq_nil (c := '/') (e := '*') _ (by decide) (by decide) (by decide)

theorem stepOrdinary_guard {project : String} (h : Text.isIdentifier project = true) :
    stepOrdinary (.line s!"#define {guardName project}") = [guardName project] := by
  have hdefined : defined? s!"#define {guardName project}" = some (guardName project) := by
    rw [defined?, wordThen?_eq [] (isWord_guardName h) (by simp) (by simp [toString_string])]
    rfl
  have htypedef : typedef? s!"#define {guardName project}" = none := by
    simp [typedef?, List.isPrefixOf?, toString_string]
  rw [stepOrdinary, hdefined, htypedef]
  rfl

theorem ordinary_header (h : Text.isIdentifier ctx.project = true) :
    ordinary (header ctx sections) = guardName ctx.project :: (ordinary prelude ++
      sections.flatMap fun code => ordinary code.declaration) := by
  have hopen : stepOrdinary (.line s!"#ifndef {guardName ctx.project}") = [] :=
    stepOrdinary_eq_nil (c := '#') (e := 'i') _ (by decide) (by decide) (by decide)
  have hclose : stepOrdinary (.line s!"#endif /* {guardName ctx.project} */") = [] := by
    simp only [toString_string, String.append_assoc]
    exact stepOrdinary_eq_nil (c := '#') (e := 'e') _ (by decide) (by decide) (by decide)
  have hfront : ordinary (Code.lines [banner ctx.schema, s!"#ifndef {guardName ctx.project}",
      s!"#define {guardName ctx.project}"]) = [guardName ctx.project] := by
    simp only [Code.lines, List.map_cons, List.map_nil, ordinary_cons, ordinary_nil,
      stepOrdinary_banner, hopen, stepOrdinary_guard h, List.nil_append, List.append_nil]
  have hincludes : ordinary (Code.lines ["#include <stddef.h>", "#include <stdint.h>"]) = [] := rfl
  have hend : ordinary [.blank, .append unit (sections.flatMap Section.prototypes), .blank,
      .line s!"#endif /* {guardName ctx.project} */"] = [] := by
    simp only [ordinary_cons, ordinary_nil, hclose]
    rfl
  have hblank : ordinary [.blank] = [] := rfl
  rw [header]
  simp only [ordinary_append, hfront, hincludes, hend, hblank, ordinary_flatMap, List.append_nil,
    List.cons_append, List.nil_append]

theorem ordinary_source :
    ordinary (source ctx sections) = sections.flatMap fun code => ordinary code.routines := by
  have hinclude : stepOrdinary (.line s!"#include \"{ctx.project}.h\"") = [] := by
    simp only [toString_string, String.append_assoc]
    exact stepOrdinary_eq_nil (c := '#') (e := 'i') _ (by decide) (by decide) (by decide)
  have hfront : ordinary (Code.lines [banner ctx.schema, "#include <string.h>",
      s!"#include \"{ctx.project}.h\""]) = [] := by
    simp only [Code.lines, List.map_cons, List.map_nil, ordinary_cons, ordinary_nil,
      stepOrdinary_banner, hinclude]
    rfl
  rw [source, ordinary_append, hfront, ordinary_flatMap]
  rfl

theorem tags_header :
    tags (header ctx sections) = tags prelude ++
      sections.flatMap fun code => tags code.declaration := by
  unfold header
  simp only [tags_append, tags_lines, tags_flatMap]
  exact List.append_nil _

theorem tags_source :
    tags (source ctx sections) = sections.flatMap fun code => tags code.routines := by
  rw [source, tags_append, tags_lines, tags_flatMap]
  rfl

theorem announced_subset {ds : List TypeDef} (h : List.Forall₂ Shows ds sections) :
    ∀ f ∈ announced (sections.flatMap Section.prototypes), f ∈ ordinary (source ctx sections) := by
  rw [ordinary_source]
  induction h with
  | nil => exact fun f hf => hf
  | cons hcode hsections ih =>
    intro f hf
    rw [List.flatMap_cons, announced, Page.statements_append, List.filterMap_append] at hf
    rw [List.flatMap_cons]
    rcases List.mem_append.1 hf with hf | hf
    · exact List.mem_append_left _ (hcode.announced f hf)
    · exact List.mem_append_right _ (ih f hf)

theorem perm_of_shows {ds : List TypeDef} {f : Section → List String} {g : TypeDef → List String}
    (h : List.Forall₂ (fun d code => (f code).Perm (g d)) ds sections) :
    (sections.flatMap f).Perm (ds.flatMap g) := by
  induction h with
  | nil => exact .nil
  | cons hcode _ ih => exact hcode.append ih

end

/-! ## Names that belong to types -/

section
variable {declared : List TypeDef} {n : String}

theorem introduced_of_ne_builtin {d : TypeDef} (h : d.kind ≠ .builtin) :
    introduced d = (ordinaryNames d).map MangledName.mangled :=
  if_neg h

def IsBuiltinRoutine (n : String) : Prop :=
  ∃ b : Builtin, n = "pack_" ++ b.name ∨ n = "unpack_" ++ b.name

theorem mem_builtin_introduced : n ∈ Schema.builtins.flatMap introduced ↔
    IsBuiltinRoutine n := by
  rw [List.mem_flatMap]
  refine ⟨?_, ?_⟩
  · rintro ⟨d, hd, hn⟩
    obtain ⟨b, rfl⟩ := Schema.mem_builtins.1 hd
    exact ⟨b, List.mem_pair.1 hn⟩
  · rintro ⟨b, hn⟩
    exact ⟨.builtin b, Schema.mem_builtins.2 ⟨b, rfl⟩, List.mem_pair.2 hn⟩

theorem IsBuiltinRoutine.head (h : IsBuiltinRoutine n) :
    n.toList.head? = some 'p' ∨ n.toList.head? = some 'u' := by
  obtain ⟨b, rfl | rfl⟩ := h
  · exact .inl (by simp)
  · exact .inr (by simp)

theorem not_isBuiltinRoutine_constant {typeName : String} {c : Char}
    (hhead : typeName.toList.head? = some c) (hc : Text.isIdentifierRest c = true)
    (label : String) : ¬ IsBuiltinRoutine (constant typeName label) := by
  obtain ⟨cs, hcs⟩ := List.head?_eq_some_iff.1 hhead
  have hconstant : (constant typeName label).toList.head? = some c.toUpper := by
    simp [constant, Text.toUppercase, hcs, Text.upperChar_of_isIdentifierRest hc]
  obtain ⟨-, hp, hu⟩ := Text.toUpper_of_isIdentifierRest hc
  intro hn
  have hn := hn.head
  rw [hconstant] at hn
  exact hn.elim (fun h => hp (Option.some.inj h)) fun h => hu (Option.some.inj h)

theorem exists_head {name : String} (h : Text.isIdentifier name = true) :
    ∃ c, name.toList.head? = some c ∧ Text.isIdentifierRest c = true := by
  cases hcs : name.toList with
  | nil =>
    unfold Text.isIdentifier at h
    rw [hcs] at h
    cases h
  | cons c cs => exact ⟨c, rfl, Text.isIdentifierRest_of_mem h (hcs ▸ List.mem_cons_self)⟩

/-- Of the names of a type only a typedef can be that of a routine of a builtin. -/
theorem exists_scalar_of_isBuiltinRoutine {d : TypeDef} (hname : Text.isIdentifier d.name = true)
    (hunreserved : ∀ b : Builtin, d.name ≠ b.name)
    (hmem : n ∈ (ordinaryNames d).map MangledName.mangled) (hn : IsBuiltinRoutine n) :
    ∃ t, d = .scalar t ∧ t.name = n := by
  obtain ⟨c, hc, hrest⟩ := exists_head hname
  unfold ordinaryNames at hmem
  rw [List.map_append] at hmem
  rcases List.mem_append.1 hmem with hmem | hmem
  · simp only [List.map_cons, List.map_nil, List.mem_cons, List.not_mem_nil, or_false] at hmem
    rcases hmem with rfl | rfl | rfl
    · obtain ⟨b, h | h⟩ := hn
      · exact absurd ((String.append_right_inj _).1 h) (hunreserved b)
      · exact absurd (congrArg (fun s => s.toList.head?) h) (by simp)
    · obtain ⟨b, h | h⟩ := hn
      · exact absurd (congrArg (fun s => s.toList.head?) h) (by simp)
      · exact absurd ((String.append_right_inj _).1 h) (hunreserved b)
    · exact absurd hn.head (by simp)
  · cases d with
    | scalar t => exact ⟨t, rfl, (List.mem_singleton.1 hmem).symm⟩
    | enumeration t =>
      obtain ⟨m, hm, rfl⟩ := List.mem_map.1 hmem
      obtain ⟨label, -, rfl⟩ := List.mem_map.1 hm
      exact absurd hn (not_isBuiltinRoutine_constant hc hrest label)
    | group t =>
      obtain ⟨m, hm, rfl⟩ := List.mem_map.1 hmem
      obtain ⟨v, -, rfl⟩ := List.mem_map.1 hm
      have htag : (tagEnum t).toList.head? = some c := by
        rw [tagEnum, String.toList_append, List.head?_append,
          show t.name.toList.head? = some c from hc]
        rfl
      exact absurd hn (not_isBuiltinRoutine_constant htag hrest v.name)
    | _ => cases hmem

/-- With names that pass the check, what can meet are a typedef and a routine of a builtin. -/
theorem nodup_ordinary_iff (hcoherent : Coherent declared)
    (hreserved : ∀ m ∈ declared.flatMap ordinaryNames, m.mangled ∉ keywords ++ preludeNames)
    (hdistinct : ((declared.flatMap ordinaryNames).map MangledName.mangled).Nodup) :
    (ordinary prelude ++ (Schema.builtins ++ declared).flatMap introduced).Nodup ↔
      ∀ t, .scalar t ∈ declared → ¬ IsBuiltinRoutine t.name := by
  have hdeclared : declared.flatMap introduced =
      (declared.flatMap ordinaryNames).map MangledName.mangled := by
    rw [List.map_flatMap]
    exact List.flatMap_congr fun d hd => introduced_of_ne_builtin (hcoherent.declarable d hd)
  have hbuiltins : (ordinary prelude ++ Schema.builtins.flatMap introduced).Nodup := by
    rw [ordinary_prelude]
    decide
  have hprelude : ∀ n ∈ ordinary prelude, n ∈ keywords ++ preludeNames := by
    rw [ordinary_prelude]
    decide
  rw [List.flatMap_append, hdeclared, ← List.append_assoc, List.nodup_append]
  refine ⟨?_, ?_⟩
  · rintro ⟨-, -, hapart⟩ t ht hroutine
    refine hapart t.name (List.mem_append_right _ (mem_builtin_introduced.2 hroutine)) t.name ?_ rfl
    refine List.mem_map.2 ⟨⟨t.name, t.name⟩, List.mem_flatMap.2 ⟨.scalar t, ht, ?_⟩, rfl⟩
    exact List.mem_append_right _ List.mem_cons_self
  · intro hscalars
    refine ⟨hbuiltins, hdistinct, ?_⟩
    rintro n hn _ hmem rfl
    obtain ⟨m, hm, rfl⟩ := List.mem_map.1 hmem
    rcases List.mem_append.1 hn with hn | hn
    · exact hreserved m hm (hprelude _ hn)
    · obtain ⟨d, hd, hmd⟩ := List.mem_flatMap.1 hm
      have hroutine := mem_builtin_introduced.1 hn
      obtain ⟨t, rfl, ht⟩ := exists_scalar_of_isBuiltinRoutine (hcoherent.identifiers d hd)
        (hcoherent.unreserved d hd) (List.mem_map_of_mem hmd) hroutine
      exact hscalars t hd (ht ▸ hroutine)

theorem nodup_tags
    (hreserved : ∀ m ∈ declared.flatMap tagNames, m.mangled ∉ keywords ++ preludeNames)
    (hdistinct : ((declared.flatMap tagNames).map MangledName.mangled).Nodup) :
    (tags prelude ++
      (Schema.builtins ++ declared).flatMap fun d =>
        (tagNames d).map MangledName.mangled).Nodup := by
  have hbuiltins :
      (Schema.builtins.flatMap fun d => (tagNames d).map MangledName.mangled) = [] := by
    rfl
  have hprelude : ∀ n ∈ tags prelude, n ∈ keywords ++ preludeNames := by
    rw [tags_prelude]
    decide
  rw [List.flatMap_append, hbuiltins, List.nil_append, ← List.map_flatMap, List.nodup_append]
  refine ⟨by rw [tags_prelude]; decide, hdistinct, ?_⟩
  rintro n hn _ hmem rfl
  obtain ⟨m, hm, rfl⟩ := List.mem_map.1 hmem
  exact hreserved m hm (hprelude _ hn)

end

/-! ## Files -/

/-- The two files, put together from the sections of the types. -/
structure FilesOf (ctx : RenderContext) (sections : List Section) (files : List GeneratedFile) :
    Prop where
  rendered : List.Forall₂ (fun d code => renderSection ctx d = .ok code) ctx.schema.ordered sections
  files : files = [
    ⟨ctx.project ++ ".h", (Page.ofSteps unit (header ctx sections)).text⟩,
    ⟨ctx.project ++ ".c", (Page.ofSteps unit (source ctx sections)).text⟩]

theorem exists_filesOf {ctx : RenderContext} {files : List GeneratedFile}
    (h : emit ctx = .ok files) : ∃ sections, FilesOf ctx sections files := by
  obtain ⟨sections, hsections, hend⟩ := except_bind_eq_ok_iff.1 h
  exact ⟨sections, mapM_eq_ok_iff.1 hsections, (Except.ok.inj hend).symm⟩

section
variable {ctx : RenderContext} {sections : List Section} {files : List GeneratedFile}

theorem FilesOf.shows (h : FilesOf ctx sections files) (hrenders : ctx.Renders backend)
    (hnames : ∀ d ∈ ctx.schema.definitions, Text.isIdentifier d.name = true) :
    List.Forall₂ Shows ctx.schema.ordered sections := by
  have hlisted : ∀ d ∈ ctx.schema.ordered, Text.isIdentifier d.name = true :=
    fun d hd => hnames d (hrenders.consistent.listed.mem_iff.1 hd)
  obtain ⟨hrendered, -⟩ := h
  generalize ctx.schema.ordered = ds at hlisted hrendered
  induction hrendered with
  | nil => exact .nil
  | cons hcode _ ih =>
    obtain ⟨hd, hds⟩ := List.forall_mem_cons.1 hlisted
    exact .cons (shows_section hrenders (fun _ => Text.isIdentifierRest_of_mem hd) hcode) (ih hds)

/-- The files declare the guard of the header, the names of the prelude, and those of every type. -/
theorem perm_ordinary (hshows : List.Forall₂ Shows ctx.schema.ordered sections)
    (hlisted : ctx.schema.ordered.Perm ctx.schema.definitions)
    (hproject : Text.isIdentifier ctx.project = true) :
    (ordinary (header ctx sections) ++ ordinary (source ctx sections)).Perm
      (guardName ctx.project ::
        (ordinary prelude ++ ctx.schema.definitions.flatMap introduced)) := by
  rw [ordinary_header hproject, ordinary_source, List.cons_append, List.append_assoc]
  refine .cons _ (.append_left _ ?_)
  have hsections : (sections.flatMap fun code =>
      ordinary code.declaration ++ ordinary code.routines).Perm
        (ctx.schema.ordered.flatMap introduced) :=
    perm_of_shows (hshows.imp fun _ _ hcode => hcode.ordinary)
  exact (List.flatMap_append_perm _ _ _).trans (hsections.trans (hlisted.flatMap_right _))

theorem perm_tags (hshows : List.Forall₂ Shows ctx.schema.ordered sections)
    (hlisted : ctx.schema.ordered.Perm ctx.schema.definitions) :
    (tags (header ctx sections) ++ tags (source ctx sections)).Perm (tags prelude ++
      ctx.schema.definitions.flatMap fun d => (tagNames d).map MangledName.mangled) := by
  rw [tags_header, tags_source, List.append_assoc]
  refine .append_left _ ?_
  have hsections : (sections.flatMap fun code => tags code.declaration ++ tags code.routines).Perm
      (ctx.schema.ordered.flatMap fun d => (tagNames d).map MangledName.mangled) :=
    perm_of_shows (hshows.imp fun _ _ hcode => hcode.tags)
  exact (List.flatMap_append_perm _ _ _).trans (hsections.trans (hlisted.flatMap_right _))

end

section
variable {name version : String} {declared : List TypeDef} {s : Schema} {r : Registry}
  {project : String} {files : List GeneratedFile}

theorem exists_shows (hs : Schema.build name version declared = .ok s) (hoffers : r.Offers backend)
    (hfiles : r.generate s language project = .ok files) :
    ∃ sections, FilesOf (r.context language project s) sections files ∧
      List.Forall₂ Shows s.ordered sections := by
  obtain ⟨-, -, hemit⟩ := hoffers.generate_eq_ok_iff.1 hfiles
  obtain ⟨sections, hsections⟩ := exists_filesOf hemit
  have hrenders :=
    hoffers.renders_context List.mem_cons_self (Schema.consistent_of_build hs) project
  refine ⟨sections, hsections, hsections.shows hrenders ?_⟩
  exact fun d hd => Schema.isIdentifier_of_mem_names hs (List.mem_map_of_mem hd)

/-- In the two files that are generated, all struct and enum tags are distinct, and prototypes
announce functions that are defined.  The typedefs, macros, functions and enumerators, the guard of
the header aside, are distinct exactly if no scalar has the name of a routine of a builtin. -/
theorem identifiers_nodup_iff (hs : Schema.build name version declared = .ok s) :
    ∃ r, Registry.withBackends = .ok r ∧ ∀ project files,
      r.generate s language project = .ok files →
      ∃ sections others, FilesOf (r.context language project s) sections files ∧
        (ordinary (header (r.context language project s) sections) ++
          ordinary (source (r.context language project s) sections)).Perm
            (guardName project :: others) ∧
        (others.Nodup ↔ ∀ t, .scalar t ∈ declared → ¬ IsBuiltinRoutine t.name) ∧
        (tags (header (r.context language project s) sections) ++
          tags (source (r.context language project s) sections)).Nodup ∧
        ∀ f ∈ announced (sections.flatMap Section.prototypes),
          f ∈ ordinary (source (r.context language project s) sections) := by
  obtain ⟨r, hr, hoffers⟩ := Registry.exists_withBackends
  refine ⟨r, hr, ?_⟩
  intro project files hfiles
  have hc := hoffers backend List.mem_cons_self
  obtain ⟨hproject, hcheck, -⟩ := hc.generate_eq_ok_iff.1 hfiles
  obtain ⟨-, -, hcoherent, -, rfl, -⟩ := Schema.build_eq_ok_iff.1 hs
  have hlisted := (Schema.consistent_of_build hs).listed
  obtain ⟨-, ⟨hreservedTags, hdistinctTags⟩, hreserved, hdistinct⟩ := check_eq_ok_iff.1 hcheck
  obtain ⟨sections, hsections, hshows⟩ := exists_shows hs hc hfiles
  refine ⟨sections, _, hsections, perm_ordinary hshows hlisted hproject,
    nodup_ordinary_iff hcoherent hreserved hdistinct, ?_, announced_subset hshows⟩
  exact (perm_tags hshows hlisted).nodup_iff.2 (nodup_tags hreservedTags hdistinctTags)

open Sample

theorem identifiers_nodup_iff_pairs :
    ∃ s, Schema.build "pairs" "1.0.0" Pairs.definitions = .ok s ∧
      ∃ r, Registry.withBackends = .ok r ∧ ∃ files, r.generate s language "demo" = .ok files ∧
        ∃ sections others, FilesOf (r.context language "demo" s) sections files ∧
          (ordinary (header (r.context language "demo" s) sections) ++
            ordinary (source (r.context language "demo" s) sections)).Perm
              (guardName "demo" :: others) ∧ others.Nodup := by
  obtain ⟨s, hs⟩ := Pairs.exists_build
  obtain ⟨-, -, -, -, hdeclared, -⟩ := Schema.build_eq_ok_iff.1 hs
  obtain ⟨r, hr, h⟩ := identifiers_nodup_iff hs
  obtain ⟨_, hr', hoffers⟩ := Registry.exists_withBackends
  cases hr.symm.trans hr'
  have hproject : Text.isIdentifier "demo" = true := rfl
  obtain ⟨files, hfiles⟩ := (hoffers backend List.mem_cons_self).exists_generate List.mem_cons_self
    (Schema.consistent_of_build hs) hproject (Registry.check_pairs hdeclared)
  obtain ⟨sections, others, hsections, hperm, hnodup, -⟩ := h "demo" files hfiles
  refine ⟨s, hs, r, hr, files, hfiles, sections, others, hsections, hperm, hnodup.2 ?_⟩
  intro t ht hroutine
  simp only [Pairs.definitions, List.mem_cons, reduceCtorEq, TypeDef.scalar.injEq, false_or,
    List.not_mem_nil, or_false] at ht
  exact absurd hroutine.head (ht ▸ by decide)

def clashing : List TypeDef := [.scalar ⟨"pack_uint8", .uint8⟩]

/-- Its name is declared as a type in the header and as a function in the source. -/
theorem exists_identifiers_not_nodup :
    ∃ s r files sections, Schema.build "s" "1.0.0" clashing = .ok s ∧
      Registry.withBackends = .ok r ∧ r.generate s language "demo" = .ok files ∧
      FilesOf (r.context language "demo" s) sections files ∧
      ¬ (ordinary (header (r.context language "demo" s) sections) ++
        ordinary (source (r.context language "demo" s) sections)).Nodup := by
  have hrun : (Schema.build "s" "1.0.0" clashing).map Schema.name = .ok "s" := by
    rfl
  obtain ⟨s, hs, -⟩ := exists_of_map_eq_ok hrun
  obtain ⟨-, -, hcoherent, -, hdeclared, -⟩ := Schema.build_eq_ok_iff.1 hs
  obtain ⟨r, hr, hoffers⟩ := Registry.exists_withBackends
  have hc := hoffers backend List.mem_cons_self
  have hconsistent := Schema.consistent_of_build hs
  have hscopes : (∀ m ∈ clashing.flatMap ordinaryNames, m.mangled ∉ keywords ++ preludeNames) ∧
      ((clashing.flatMap ordinaryNames).map MangledName.mangled).Nodup := by decide
  have hcheck : check (r.context language "demo" s) = .ok () := by
    refine check_eq_ok_iff.2 ?_
    rw [show (r.context language "demo" s).schema.declared = clashing from hdeclared]
    exact ⟨List.forall_mem_cons.2 ⟨rfl, by simp⟩, by decide, hscopes⟩
  have hproject : Text.isIdentifier "demo" = true := rfl
  obtain ⟨files, hfiles⟩ := hc.exists_generate List.mem_cons_self hconsistent hproject hcheck
  obtain ⟨sections, hsections, hshows⟩ := exists_shows hs hc hfiles
  refine ⟨s, r, files, sections, hs, hr, hfiles, hsections, ?_⟩
  intro hnodup
  have hnames := (perm_ordinary hshows hconsistent.listed hproject).nodup_iff.1 hnodup
  have hothers : (ordinary prelude ++ (Schema.builtins ++ s.declared).flatMap introduced).Nodup :=
    (List.nodup_cons.1 hnames).2
  rw [hdeclared, nodup_ordinary_iff hcoherent hscopes.1 hscopes.2] at hothers
  exact hothers ⟨"pack_uint8", .uint8⟩ List.mem_cons_self ⟨.uint8, .inl rfl⟩

end
end WireCodec.Target.C
