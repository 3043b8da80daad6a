import WireCodec.Proofs.Guarding

/-!
# Order of C files

A header declares the types of a schema in dependency order, and the source file defines their
routines in the same order.  So the type of a member is declared above the struct that has it, and a
routine is defined above those that call it.

* `Target.C.types code`         the types that code declares, as they are referred to;
* `Target.C.used code`          the types of its members and typedefs;
* `Target.C.LaidOut`            what the section of a type declares, uses, defines and calls;
* `Target.C.InOrder`            the two files of a schema define everything above its users;
* `Target.C.exists_inOrder`     generated files do.
-/

namespace WireCodec.Target.C

/-! ## Types -/

/-- The types that a step at file scope declares, as they are referred to. -/
def stepTypes : CodeStep → List String
  | .line text => (typedef? text).toList
  | .braces opening _ _ =>
    (enumTag? opening).toList.map ("enum " ++ ·) ++ (structTag? opening).toList.map ("struct " ++ ·)
  | _ => []

def types (code : Code) : List String := code.flatMap stepTypes

/-- The type at the beginning of a line, as it is referred to, if a name stands behind it. -/
def valueType? (text : String) : Option String :=
  match (words text).dropWhile (· ∈ typeWords) with
  | n :: _ :: _ =>
    some (String.intercalate " " (((words text).takeWhile (· ∈ typeWords) ++ [n]).erase "const"))
  | _ => none

/-- The types that have to be complete where a step stands: those of the members of a struct and of
unions in it, and the one that a typedef renames.  A line is taken to declare one member. -/
def stepUsed : CodeStep → List String
  | .line text =>
    (("typedef ".toList.isPrefixOf? text.toList).bind fun rest =>
      valueType? (String.ofList rest)).toList
  | .braces opening _ body =>
    if (structTag? opening).isSome then (Page.statements body).filterMap valueType? else []
  | _ => []

def used (code : Code) : List String := code.flatMap stepUsed

def standardTypes : List String := Builtin.all.map primitive ++ ["size_t"]

/-- The types that are declared for a definition, in the order of their declarations. -/
def typesOf : TypeDef → List String
  | .builtin _ => []
  | .scalar t => [t.name]
  | .enumeration t => ["enum " ++ t.name]
  | .group t => ["enum " ++ tagEnum t, "struct " ++ t.name]
  | d => ["struct " ++ d.name]

section
variable {name text line : String} {front back : Code}

theorem types_append : types (front ++ back) = types front ++ types back :=
  List.flatMap_append

theorem used_append : used (front ++ back) = used front ++ used back :=
  List.flatMap_append

theorem types_enumBlock (hname : IsWord name) (body : Code) :
    types [Code.blockUntil "\x7d;" s!"enum {name}" body] = ["enum " ++ name] := by
  simp [types, stepTypes, Code.blockUntil, enumTag?_enum hname, structTag?_enum]

theorem types_structBlock (hname : IsWord name) (body : Code) :
    types [Code.blockUntil "\x7d;" s!"struct {name}" body] = ["struct " ++ name] := by
  simp [types, stepTypes, Code.blockUntil, enumTag?_struct, structTag?_struct hname]

theorem used_enumBlock (name : String) (body : Code) :
    used [Code.blockUntil "\x7d;" s!"enum {name}" body] = [] := by
  simp [used, stepUsed, Code.blockUntil, structTag?_enum]

theorem used_structBlock (hname : IsWord name) (body : Code) :
    used [Code.blockUntil "\x7d;" s!"struct {name}" body] =
      (Page.statements body).filterMap valueType? := by
  simp [used, stepUsed, Code.blockUntil, structTag?_struct hname]

theorem step_line_eq_nil (h : text.toList.head? ≠ some 't') :
    stepTypes (.line text) = [] ∧ stepUsed (.line text) = [] := by
  have hbegins : "typedef ".toList.isPrefixOf? text.toList = none := by
    cases hcs : text.toList with
    | nil => rfl
    | cons c cs =>
      have hc : c ≠ 't' := fun heq => h (by rw [hcs, heq]; rfl)
      simp [List.isPrefixOf?, hc.symm]
  refine ⟨?_, ?_⟩
  · rw [stepTypes, typedef?, hbegins]
    rfl
  · rw [stepUsed, hbegins]
    rfl

/-- Behind the reference to its type a member has its name. -/
theorem NamesType.valueType?_eq (h : NamesType text) (rest : String) (hrest : C.words rest ≠ [])
    (hline : line.toList = text.toList ++ ' ' :: rest.toList) : valueType? line = some text := by
  obtain ⟨-, ⟨n, hn⟩, hspelled⟩ := h
  obtain ⟨w, ws, hw⟩ := List.exists_cons_of_ne_nil hrest
  have hwords : C.words line = C.words text ++ w :: ws := by
    rw [words_append text ' ' rest (by decide) hline, hw]
  have htext : (C.words text).takeWhile (· ∈ typeWords) ++ [n] = C.words text := by
    rw [← hn, List.takeWhile_append_dropWhile]
  have hdrop : (C.words line).dropWhile (· ∈ typeWords) = n :: w :: ws := by
    rw [hwords, List.dropWhile_append, hn]
    rfl
  have htake : (C.words line).takeWhile (· ∈ typeWords) =
      (C.words text).takeWhile (· ∈ typeWords) := by
    have hlength := congrArg List.length htext
    rw [List.length_append, List.length_singleton] at hlength
    rw [hwords, List.takeWhile_append, if_neg (by omega)]
  simp only [valueType?, hdrop, htake, htext, hspelled]

theorem isIdentifier_member {n : String} (h : Text.isIdentifier n = true) :
    Text.isIdentifier (member n) = true := by
  unfold member Text.escapeKeyword
  split
  · next hkeyword => exact (isIdentifier_keyword n hkeyword).2.1
  · exact h

theorem words_name_ne_nil {n : String} (h : Text.isIdentifier n = true) :
    words (n ++ ";") ≠ [] := by
  rw [words_append n ';' "" (by decide) (by simp), words_of_isIdentifier h]
  exact List.cons_ne_nil _ _

theorem NamesType.valueType?_array (h : NamesType text) (n : Nat) :
    valueType? s!"{text} elems[{n}];" = some text := by
  have helems : C.words ("elems[" ++ toString n ++ "];") ≠ [] := by
    rw [words_append "elems" '[' (toString n ++ "];") (by decide) (by simp)]
    exact List.cons_ne_nil _ _
  exact h.valueType?_eq _ helems (by simp [toString_string])

theorem NamesType.stepUsed_typedef (h : NamesType text) (hname : Text.isIdentifier name = true) :
    stepUsed (.line s!"typedef {text} {name};") = [text] := by
  have htext : s!"typedef {text} {name};".toList =
      "typedef ".toList ++ (text.toList ++ ' ' :: (name ++ ";").toList) := by
    simp [toString_string]
  have hvalue : valueType? (String.ofList (text.toList ++ ' ' :: (name ++ ";").toList)) =
      some text :=
    h.valueType?_eq _ (words_name_ne_nil hname) String.toList_ofList
  rw [stepUsed, List.isPrefixOf?_eq_some_iff_append_eq.2 htext.symm, Option.bind_some, hvalue]
  rfl

end

/-! ## Declarations -/

/-- Code uses the types that values of a definition are made of, and others of the language at
most. -/
structure Holds (refer : Referrer) (d : TypeDef) (code : Code) : Prop where
  all : ∀ n ∈ d.parts, ∃ t ∈ used code, refer n = .ok t
  only : ∀ t ∈ used code, t ∈ standardTypes ∨ ∃ n ∈ d.parts, refer n = .ok t

section
variable {refer : Referrer} {d : TypeDef} {code : Code}

theorem holds_of_forall₂ (ns : List String) (hns : ∀ n, n ∈ ns ↔ n ∈ d.parts)
    (h : List.Forall₂ (fun n t => refer n = .ok t) ns (used code)) : Holds refer d code := by
  obtain ⟨hall, honly⟩ := exists_mem_of_forall₂ h
  refine ⟨fun n hn => hall n ((hns n).2 hn), fun t ht => ?_⟩
  obtain ⟨n, hn, ht⟩ := honly t ht
  exact .inr ⟨n, (hns n).1 hn, ht⟩

theorem forall₂_memberLines {fields : List Field} (h : memberLines refer fields = .ok code)
    (hrefer : ∀ f ∈ fields, ∀ text, refer f.typeName = .ok text → NamesType text)
    (hnames : ∀ n ∈ fieldNames fields, Text.isIdentifier n = true) :
    List.Forall₂ (fun n t => refer n = .ok t) (fields.map Field.typeName)
      ((Page.statements code).filterMap valueType?) := by
  have hlines := mapM_eq_ok_iff.1 h
  clear h
  induction hlines with
  | nil => exact .nil
  | @cons f step fields code hstep _ ih =>
    obtain ⟨hf, hfields⟩ := List.forall_mem_cons.1 hrefer
    obtain ⟨hname, hnames⟩ := List.forall_mem_cons.1 hnames
    obtain ⟨text, htext, hend⟩ := except_bind_eq_ok_iff.1 hstep
    cases hend
    have hvalue : valueType? s!"{text} {member f.name};" = some text :=
      (hf text htext).valueType?_eq _ (words_name_ne_nil (isIdentifier_member hname))
        (by simp [toString_string])
    show List.Forall₂ _ _
      (List.filterMap valueType? (s!"{text} {member f.name};" :: Page.statements code))
    rw [List.filterMap_cons_some hvalue]
    exact .cons htext (ih hfields hnames)

theorem holds_scalarDeclaration {t : Scalar} (hname : Text.isIdentifier t.name = true)
    (hbuiltin : ∀ b : Builtin, refer b.name = .ok (primitive b))
    (hrefer : ∀ n ∈ (TypeDef.scalar t).cited, ∀ text, refer n = .ok text → NamesType text)
    (h : scalarBuilder.declaration refer (.scalar t) = .ok code) :
    types code = typesOf (.scalar t) ∧ Holds refer (.scalar t) code := by
  obtain ⟨_, ht, h⟩ := except_bind_eq_ok_iff.1 h
  cases ht
  obtain ⟨text, htext, hend⟩ := except_bind_eq_ok_iff.1 h
  cases hend
  have hnames := hrefer t.builtin.name t.builtin_mem_cited text htext
  refine ⟨?_, holds_of_forall₂ [t.builtin.name] (fun _ => Iff.rfl) ?_⟩
  · rw [hbuiltin] at htext
    cases htext
    show (typedef? s!"typedef {primitive t.builtin} {t.name};").toList ++ [] = [t.name]
    rw [typedef?_primitive t.builtin fun _ => Text.isIdentifierRest_of_mem hname]
    rfl
  · show List.Forall₂ _ _ (stepUsed (.line s!"typedef {text} {t.name};") ++ [])
    rw [hnames.stepUsed_typedef hname]
    exact .cons htext .nil

theorem holds_compositeDeclaration {t : Composite} (hname : IsWord t.name)
    (hrefer : ∀ n ∈ (TypeDef.composite t).cited, ∀ text, refer n = .ok text → NamesType text)
    (hentries : ∀ n ∈ fieldNames t.fields, Text.isIdentifier n = true)
    (h : compositeBuilder.declaration refer (.composite t) = .ok code) :
    types code = typesOf (.composite t) ∧ Holds refer (.composite t) code := by
  obtain ⟨_, ht, h⟩ := except_bind_eq_ok_iff.1 h
  cases ht
  obtain ⟨members, hmembers, hend⟩ := except_bind_eq_ok_iff.1 h
  cases hend
  refine ⟨types_structBlock hname _, ?_⟩
  by_cases hnil : t.fields = []
  · -- a struct without fields has a member of its own
    have hused : used [Code.blockUntil "\x7d;" s!"struct {t.name}"
        (Code.lines ["uint8_t empty_;"])] = ["uint8_t"] := by
      rw [used_structBlock hname]
      rfl
    rw [if_pos hnil]
    refine ⟨?_, ?_⟩
    · show ∀ n ∈ t.fields.map Field.typeName ++ [], _
      rw [hnil]
      exact List.forall_mem_nil _
    · rw [hused, List.forall_mem_singleton]
      exact .inl (by decide)
  · rw [if_neg hnil]
    refine holds_of_forall₂ (t.fields.map Field.typeName) (fun n => ?_) ?_
    · show _ ↔ n ∈ t.fields.map Field.typeName ++ []
      rw [List.append_nil]
    · rw [used_structBlock hname]
      refine forall₂_memberLines hmembers (fun f hf => ?_) hentries
      exact hrefer f.typeName (t.fields_mem_cited _ (List.mem_map_of_mem hf))

theorem holds_groupDeclaration {t : Group} (hname : IsWord t.name)
    (hrefer : ∀ n ∈ (TypeDef.group t).cited, ∀ text, refer n = .ok text → NamesType text)
    (hentries : ∀ n ∈ fieldNames t.variants, Text.isIdentifier n = true)
    (h : groupBuilder.declaration refer (.group t) = .ok code) :
    types code = typesOf (.group t) ∧ Holds refer (.group t) code := by
  obtain ⟨_, ht, h⟩ := except_bind_eq_ok_iff.1 h
  cases ht
  obtain ⟨tag, htag, h⟩ := except_bind_eq_ok_iff.1 h
  obtain ⟨variants, hvariants, hend⟩ := except_bind_eq_ok_iff.1 h
  cases hend
  have htagEnum : IsWord (tagEnum t) := IsWord.append hname (List.all_eq_true.1 rfl)
  have hparts : ∀ (first last : CodeStep),
      [first, .blank, last] = [first] ++ ([.blank] ++ [last]) :=
    fun _ _ => rfl
  have htagType : valueType? s!"{tag} tag;" = some tag :=
    (hrefer t.tagType.name t.tag_mem_cited tag htag).valueType?_eq "tag;" (by decide)
      (by simp [toString_string])
  have hlines :
      Page.statements [.line s!"{tag} tag;", Code.blockUntil "\x7d data;" "union" variants] =
        s!"{tag} tag;" :: ("union \x7b" :: (Page.statements variants ++ ["\x7d data;"])) :=
    congrArg (s!"{tag} tag;" :: "union \x7b" :: ·) (List.append_nil _)
  have hunion : valueType? "union \x7b" = none := rfl
  have hdata : ["\x7d data;"].filterMap valueType? = [] := rfl
  refine ⟨?_, holds_of_forall₂ (t.tagType.name :: t.variants.map Field.typeName) ?_ ?_⟩
  · rw [hparts, types_append, types_append, types_enumBlock htagEnum, types_structBlock hname]
    rfl
  · intro n
    show n ∈ _ :: _ ↔ n ∈ t.variants.map Field.typeName ++ [t.tagType.name]
    rw [List.mem_cons, List.mem_append, List.mem_singleton, or_comm]
  · rw [hparts, used_append, used_append, used_enumBlock, used_structBlock hname, hlines,
      List.filterMap_cons_some htagType, List.filterMap_cons_none hunion, List.filterMap_append,
      hdata, List.append_nil]
    refine .cons htag (forall₂_memberLines hvariants (fun v hv => ?_) hentries)
    exact hrefer v.typeName (t.variants_mem_cited _ (List.mem_map_of_mem hv))

/-- The declaration of a type declares its names and uses the types of its parts. -/
theorem holds_declaration (hname : Text.isIdentifier d.name = true)
    (hbuiltin : ∀ b : Builtin, refer b.name = .ok (primitive b))
    (hrefer : ∀ n ∈ d.cited, ∀ text, refer n = .ok text → NamesType text)
    (hentries : ∀ n ∈ d.entries, Text.isIdentifier n = true)
    (h : (builder d.kind).declaration refer d = .ok code) :
    types code = typesOf d ∧ Holds refer d code := by
  have hword : IsWord d.name := fun _ => Text.isIdentifierRest_of_mem hname
  cases d with
  | builtin b =>
    cases h
    exact ⟨rfl, holds_of_forall₂ [] (fun _ => Iff.rfl) .nil⟩
  | scalar t => exact holds_scalarDeclaration hname hbuiltin hrefer h
  | enumeration t =>
    cases h
    refine ⟨types_enumBlock hword _, holds_of_forall₂ [] (fun _ => Iff.rfl) ?_⟩
    rw [used_enumBlock]
    exact .nil
  | composite t => exact holds_compositeDeclaration hword hrefer hentries h
  | fixedArray t =>
    obtain ⟨_, ht, h⟩ := except_bind_eq_ok_iff.1 h
    cases ht
    obtain ⟨text, htext, hend⟩ := except_bind_eq_ok_iff.1 h
    cases hend
    have helement := (hrefer t.element t.element_mem_cited text htext).valueType?_array t.count
    refine ⟨types_structBlock hword _, holds_of_forall₂ [t.element] (fun _ => Iff.rfl) ?_⟩
    rw [used_structBlock (show IsWord t.name from hword), Page.statements_lines,
      List.filterMap_cons_some helement]
    exact .cons htext .nil
  | variableArray t =>
    obtain ⟨_, ht, h⟩ := except_bind_eq_ok_iff.1 h
    cases ht
    obtain ⟨size, hsize, h⟩ := except_bind_eq_ok_iff.1 h
    obtain ⟨text, htext, hend⟩ := except_bind_eq_ok_iff.1 h
    cases hend
    have hlength : valueType? s!"{size} length;" = some size :=
      (hrefer t.sizeType.name t.size_mem_cited size hsize).valueType?_eq "length;"
        (by decide) (by simp [toString_string])
    have helement := (hrefer t.element t.element_mem_cited text htext).valueType?_array t.max
    refine ⟨types_structBlock hword _,
      holds_of_forall₂ [t.sizeType.name, t.element] (fun _ => Iff.rfl) ?_⟩
    rw [used_structBlock (show IsWord t.name from hword), Page.statements_lines,
      List.filterMap_cons_some hlength, List.filterMap_cons_some helement]
    exact .cons hsize (.cons htext .nil)
  | group t => exact holds_groupDeclaration hword hrefer hentries h

end

/-! ## Sections -/

/-- Both routines of every type that a step calls a routine of. -/
def stepCalls (step : CodeStep) : List String :=
  (callees [step]).flatMap fun n => ["pack_" ++ n, "unpack_" ++ n]

/-- What the section of a type declares in the header and uses there, and what it defines in the
source and calls. -/
structure LaidOut (ctx : RenderContext) (d : TypeDef) (code : Section) : Prop where
  types : types code.declaration = typesOf d
  holds : Holds ctx.reference d code.declaration
  routines : ordinary code.routines = ["pack_" ++ d.name, "unpack_" ++ d.name]
  calls : ∀ n, n ∈ callees code.routines ↔ n ∈ d.uses

section
variable {ctx : RenderContext} {d : TypeDef} {code : Section}

theorem laidOut_section (h : ctx.Renders backend) (hd : d ∈ ctx.schema.definitions)
    (hnames : ∀ e ∈ ctx.schema.definitions, Text.isIdentifier e.name = true)
    (hfree : ∀ e ∈ ctx.schema.definitions, e.kind ≠ .builtin → e.name ∉ typeWords)
    (hentries : ∀ n ∈ d.entries, Text.isIdentifier n = true)
    (hcode : renderSection ctx d = .ok code) : LaidOut ctx d code := by
  obtain ⟨declaration, pack, unpack, bounds, prototypes, hdeclaration, hpack, hunpack, rfl,
    hparts⟩ := renderSection_eq_ok hcode
  have hword : IsWord d.name := fun _ => Text.isIdentifierRest_of_mem (hnames d hd)
  have hrefer : ∀ n ∈ d.cited, ∀ text, ctx.reference n = .ok text → NamesType text := by
    intro n hn text htext
    obtain ⟨e, he, rfl⟩ := List.mem_map.1 (h.consistent.cited_mem_names hd n hn)
    rw [h.reference_eq he] at htext
    exact namesType_reference (hnames e he) (hfree e he) htext
  have hreferences : ∀ n ∈ d.references, Text.isIdentifier n = true := by
    intro n hn
    obtain ⟨e, he, rfl⟩ := List.mem_map.1 (h.consistent.resolved d hd n hn)
    exact hnames e he
  have hbounds : C.types (Code.lines bounds) = [] ∧ used (Code.lines bounds) = [] := by
    rcases hparts with ⟨-, rfl, -⟩ | ⟨-, rfl, -⟩
    · exact ⟨rfl, rfl⟩
    · obtain ⟨htypes, hused⟩ := @step_line_eq_nil
        s!"#define MAX_ENCODED_LENGTH_{d.name} ({ctx.schema.maxEncodedLength d})"
        (by simp [toString_string])
      exact ⟨congrArg (· ++ []) htypes, congrArg (· ++ []) hused⟩
  have hblank : C.types [.blank] = [] ∧ used [.blank] = [] := ⟨rfl, rfl⟩
  rw [h.declaration_eq] at hdeclaration
  obtain ⟨htypes, hall, honly⟩ :=
    holds_declaration (hnames d hd) (reference_builtin h) hrefer hentries hdeclaration
  have hused : used ([.blank] ++ declaration ++ Code.lines bounds) = used declaration := by
    rw [used_append, used_append, hblank.2, hbounds.2, List.nil_append, List.append_nil]
  refine ⟨?_, ⟨?_, ?_⟩, (routines_section h hword hpack hunpack).1, fun n => ?_⟩
  · rw [types_append, types_append, hblank.1, hbounds.1, List.nil_append, List.append_nil, htypes]
  · rw [hused]
    exact hall
  · rw [hused]
    exact honly
  · have hcallees : callees ([.blank] ++ pack ++ [.blank] ++ unpack) =
        callees pack ++ callees unpack := by
      rw [callees_append, callees_append, callees_append]
      show [] ++ callees pack ++ [] ++ callees unpack = _
      rw [List.nil_append, List.append_nil]
    rw [hcallees, List.mem_append, mem_callees_iff h hreferences (.inl hpack),
      mem_callees_iff h hreferences (.inr hunpack), or_self]

/-- A type is referred to as it is declared, unless it comes with the language. -/
theorem mem_typesOf_of_reference {t : String} (h : (builder d.kind).reference d = .ok t) :
    t ∈ standardTypes ++ typesOf d := by
  cases d with
  | builtin b =>
    cases h
    cases b <;> decide
  | group t =>
    cases h
    exact List.mem_append_right _ (List.mem_cons_of_mem _ List.mem_cons_self)
  | _ =>
    cases h
    exact List.mem_append_right _ List.mem_cons_self

theorem mem_callees_of_mem {code : Code} {step : CodeStep} {n : String} (hstep : step ∈ code)
    (hn : n ∈ callees [step]) : n ∈ callees code := by
  obtain ⟨front, back, rfl⟩ := List.append_of_mem hstep
  rw [List.append_cons, callees_append, callees_append]
  exact List.mem_append_left _ (List.mem_append_right _ hn)

end

/-! ## Files -/

/-- The two files of a schema hold what belongs to its types in order, and define everything above
its users. -/
structure InOrder (ctx : RenderContext) (sections : List Section) : Prop where
  /-- The header declares the types of each definition once, in the order of the definitions. -/
  types : types (header ctx sections) = types prelude ++ ctx.schema.ordered.flatMap typesOf
  parts : List.Forall₂ (fun d code => ∀ n ∈ d.parts,
    ∃ t ∈ used code.declaration, ctx.reference n = .ok t) ctx.schema.ordered sections
  /-- The types of members are declared above the struct. -/
  declared : ProvidedFirst stepUsed stepTypes standardTypes (header ctx sections)
  /-- The source file defines the routines of each definition once, in the same order. -/
  routines : ordinary (source ctx sections) =
    ctx.schema.ordered.flatMap fun d => ["pack_" ++ d.name, "unpack_" ++ d.name]
  calls : List.Forall₂ (fun d code => ∀ n, n ∈ callees code.routines ↔ n ∈ d.uses)
    ctx.schema.ordered sections
  /-- Routines are defined above those that call them. -/
  defined : ProvidedFirst stepCalls stepOrdinary [] (source ctx sections)

section
variable {ctx : RenderContext} {sections : List Section}

def Typeless (code : Code) : Prop := ∀ step ∈ code, stepTypes step = [] ∧ stepUsed step = []

theorem Typeless.append {front back : Code} (hfront : Typeless front) (hback : Typeless back) :
    Typeless (front ++ back) :=
  List.forall_mem_append.2 ⟨hfront, hback⟩

theorem typeless_lines {texts : List String} (h : ∀ text ∈ texts, text.toList.head? ≠ some 't') :
    Typeless (Code.lines texts) := by
  intro step hstep
  obtain ⟨text, htext, rfl⟩ := List.mem_map.1 hstep
  exact step_line_eq_nil (h text htext)

theorem typeless_blank : Typeless [.blank] :=
  List.forall_mem_singleton.2 ⟨rfl, rfl⟩

/-- Around the prelude and the sections there is nothing about types. -/
theorem exists_header_eq (ctx : RenderContext) (sections : List Section) :
    ∃ front back : Code, Typeless front ∧ Typeless back ∧
      header ctx sections =
        front ++ (prelude ++ (sections.flatMap Section.declaration ++ back)) := by
  obtain ⟨rest, hbanner⟩ := exists_banner_eq ctx.schema
  have hguard : Typeless (Code.lines [banner ctx.schema, s!"#ifndef {guardName ctx.project}",
      s!"#define {guardName ctx.project}"]) :=
    hbanner ▸ typeless_lines (by simp [toString_string])
  have hincludes : Typeless (Code.lines ["#include <stddef.h>", "#include <stdint.h>"]) :=
    typeless_lines (by simp)
  have hprototypes : Typeless [.append unit (sections.flatMap Section.prototypes)] :=
    List.forall_mem_singleton.2 ⟨rfl, rfl⟩
  have hend : Typeless (Code.lines [s!"#endif /* {guardName ctx.project} */"]) :=
    typeless_lines (by simp [toString_string])
  refine ⟨_, _, ((hguard.append typeless_blank).append hincludes).append typeless_blank,
    typeless_blank.append (hprototypes.append (typeless_blank.append hend)), ?_⟩
  unfold header
  simp only [List.append_assoc]
  rfl

theorem mem_standardTypes_of_prelude :
    ∀ step ∈ prelude, ∀ t ∈ stepUsed step, t ∈ standardTypes := by
  have hline : ∀ {text : String}, text.toList.head? ≠ some 't' →
      ∀ t ∈ stepUsed (.line text), t ∈ standardTypes := by
    intro text h
    rw [(step_line_eq_nil h).2]
    exact List.forall_mem_nil _
  have hblank : ∀ t ∈ stepUsed .blank, t ∈ standardTypes := List.forall_mem_nil _
  have hblock : ∀ {head : String} {texts ts : List String},
      (if (structTag? (head ++ " \x7b")).isSome then texts.filterMap valueType? else []) = ts →
      (∀ t ∈ ts, t ∈ standardTypes) →
      ∀ t ∈ stepUsed (Code.blockUntil "\x7d;" head (Code.lines texts)), t ∈ standardTypes := by
    rintro head texts _ rfl h
    rw [Code.blockUntil, stepUsed, Page.statements_lines]
    exact h
  have hmembers : ∀ t ∈ ["uint8_t", "size_t", "size_t"], t ∈ standardTypes := by decide
  unfold prelude
  simp only [List.forall_mem_cons]
  refine ⟨hline (by simp), hline (by simp), hblank, hblock rfl (List.forall_mem_nil _), hblank,
    hline (by simp), hblock rfl hmembers, hblank, hline (by simp), hblock rfl hmembers, hblank,
    hline (by simp), List.forall_mem_nil _, hblank, hline (by simp), List.forall_mem_nil _⟩

/-- Everything that a declaration uses is declared in the sections in front of it. -/
theorem LaidOut.mem_of_used {before : List TypeDef} {d : TypeDef} {code : Section} {t : String}
    (hcode : LaidOut ctx d code) (h : ctx.Renders backend)
    (hbefore : ∀ e ∈ before, e ∈ ctx.schema.definitions)
    (huses : ∀ n ∈ d.uses, n ∈ before.map TypeDef.name) (ht : t ∈ used code.declaration) :
    t ∈ standardTypes ++ before.flatMap typesOf := by
  rcases hcode.holds.only t ht with ht | ⟨n, hn, hreference⟩
  · exact List.mem_append_left _ ht
  · obtain ⟨e, he, rfl⟩ := List.mem_map.1 (huses n (d.parts_subset_uses hn))
    rw [h.reference_eq (hbefore e he)] at hreference
    rcases List.mem_append.1 (mem_typesOf_of_reference hreference) with ht | ht
    · exact List.mem_append_left _ ht
    · exact List.mem_append_right _ (List.mem_flatMap.2 ⟨e, he, ht⟩)

/-- Every routine that a routine calls is defined in the sections in front of it. -/
theorem LaidOut.mem_of_calls {before : List TypeDef} {d : TypeDef} {code : Section}
    {step : CodeStep} {f : String} (hcode : LaidOut ctx d code)
    (huses : ∀ n ∈ d.uses, n ∈ before.map TypeDef.name) (hstep : step ∈ code.routines)
    (hf : f ∈ stepCalls step) :
    f ∈ before.flatMap fun e => ["pack_" ++ e.name, "unpack_" ++ e.name] := by
  obtain ⟨n, hn, hf⟩ := List.mem_flatMap.1 hf
  have hn := huses n ((hcode.calls n).1 (mem_callees_of_mem hstep hn))
  obtain ⟨e, he, rfl⟩ := List.mem_map.1 hn
  exact List.mem_flatMap.2 ⟨e, he, hf⟩

theorem stepCalls_sourceFront (ctx : RenderContext) :
    ∀ step ∈ Code.lines [banner ctx.schema, "#include <string.h>",
      s!"#include \"{ctx.project}.h\""], ∀ f ∈ stepCalls step, f ∈ [] := by
  have hline : ∀ {text : String} {c : Char}, text.toList.head? = some c → c ≠ 'W' → c ≠ 'r' →
      ∀ f ∈ stepCalls (.line text), f ∈ [] := by
    intro text c hc hw hr
    rw [stepCalls, callees_line, callee?_eq_none hc hw hr]
    exact fun _ hf => hf
  obtain ⟨rest, hbanner⟩ := exists_banner_eq ctx.schema
  rw [hbanner]
  show ∀ step ∈ [_, _, _], _
  rw [List.forall_mem_cons, List.forall_mem_cons, List.forall_mem_singleton]
  refine ⟨@hline _ '/' (by simp) (by decide) (by decide),
    @hline _ '#' (by simp) (by decide) (by decide), @hline _ '#' ?_ (by decide) (by decide)⟩
  simp [toString_string]

/-- Sections that are laid out for the types of a schema, in order, make files that are in order. -/
theorem inOrder_of_laidOut (h : ctx.Renders backend)
    (huses : ∀ before d after, ctx.schema.ordered = before ++ d :: after →
      ∀ n ∈ d.uses, n ∈ before.map TypeDef.name)
    (hsections : List.Forall₂ (LaidOut ctx) ctx.schema.ordered sections) :
    InOrder ctx sections := by
  obtain ⟨front, back, hfront, hback, hheader⟩ := exists_header_eq ctx sections
  refine ⟨?_, hsections.imp fun d code hcode => hcode.holds.all, ?_, ?_,
    hsections.imp fun d code hcode => hcode.calls, ?_⟩
  · have hnone : types front = [] ∧ types back = [] :=
      ⟨List.flatMap_eq_nil_iff.2 fun step hstep => (hfront step hstep).1,
        List.flatMap_eq_nil_iff.2 fun step hstep => (hback step hstep).1⟩
    have hdeclared : types (sections.flatMap Section.declaration) =
        ctx.schema.ordered.flatMap typesOf := by
      rw [types, List.flatMap_assoc]
      exact flatMap_eq_of_forall₂ (hsections.imp fun d code hcode => hcode.types)
    rw [hheader, types_append, types_append, types_append, hnone.1, hnone.2, hdeclared,
      List.nil_append, List.append_nil]
  · have hquiet : ∀ {code : Code}, Typeless code →
        ProvidedFirst stepUsed stepTypes standardTypes code := by
      intro code hcode
      refine providedFirst_of_forall fun step hstep => ?_
      rw [(hcode step hstep).2]
      exact List.forall_mem_nil _
    have hmain : ProvidedFirst stepUsed stepTypes standardTypes
        (sections.flatMap Section.declaration) := by
      refine providedFirst_of_forall₂ hsections (fun d _ code hcode => hcode.types) ?_
      intro before d after hsplit code hcode step hstep t ht
      exact hcode.mem_of_used h (h.consistent.mem_of_split hsplit).1 (huses before d after hsplit)
        (List.mem_flatMap.2 ⟨step, hstep, ht⟩)
    have hprelude : ProvidedFirst stepUsed stepTypes standardTypes prelude :=
      providedFirst_of_forall mem_standardTypes_of_prelude
    rw [hheader]
    refine (hquiet hfront).append ((hprelude.append ((hmain.append ?_).mono ?_)).mono ?_)
    · exact (hquiet hback).mono (List.subset_append_left _ _)
    · exact List.subset_append_left _ _
    · exact List.subset_append_left _ _
  · rw [ordinary_source]
    exact flatMap_eq_of_forall₂ (hsections.imp fun d code hcode => hcode.routines)
  · refine ProvidedFirst.append (providedFirst_of_forall (stepCalls_sourceFront ctx))
      (ProvidedFirst.mono ?_ (List.nil_subset _))
    refine providedFirst_of_forall₂ hsections (fun d _ code hcode => hcode.routines) ?_
    intro before d after hsplit code hcode step hstep f hf
    exact hcode.mem_of_calls (huses before d after hsplit) hstep hf

end

section
variable {name version : String} {declared : List TypeDef} {s : Schema} {r : Registry}
  {project : String} {files : List GeneratedFile}

/-- If labels, fields and variants are identifiers, generated files are in order. -/
theorem exists_inOrder (hs : Schema.build name version declared = .ok s)
    (hentries : ∀ d ∈ declared, ∀ n ∈ d.entries, Text.isIdentifier n = true)
    (hoffers : r.Offers backend) (hfiles : r.generate s language project = .ok files) :
    ∃ sections, FilesOf (r.context language project s) sections files ∧
      InOrder (r.context language project s) sections := by
  obtain ⟨-, hcheck, hemit⟩ := hoffers.generate_eq_ok_iff.1 hfiles
  obtain ⟨sections, hsections⟩ := exists_filesOf hemit
  have hrenders : (r.context language project s).Renders backend :=
    hoffers.renders_context List.mem_cons_self (Schema.consistent_of_build hs) project
  have hnames : ∀ d ∈ s.definitions, Text.isIdentifier d.name = true :=
    fun d hd => Schema.isIdentifier_of_mem_names hs (List.mem_map_of_mem hd)
  have hall : ∀ d ∈ s.ordered, ∀ n ∈ d.entries, Text.isIdentifier n = true :=
    (Schema.forall_ordered_iff hs fun _ => List.forall_mem_nil _).2 hentries
  refine ⟨sections, hsections, inOrder_of_laidOut hrenders ?_ ?_⟩
  · exact fun before d after hsplit => Schema.uses_before hs hsplit
  · refine ((List.forall₂_and_left _ _).2 ⟨fun d hd => hd, hsections.rendered⟩).imp ?_
    rintro d code ⟨hd, hcode⟩
    exact laidOut_section hrenders (hrenders.consistent.listed.mem_iff.1 hd) hnames
      (fun e => not_mem_typeWords hcheck) (hall d hd) hcode

end
end WireCodec.Target.C
