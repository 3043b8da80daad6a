import WireCodec.Proofs.Classes

/-!
# Names of generated types

Rust types, their variants and Ruby classes are named in Pascal case.  The checks of the two
languages compare these names with each other and with reserved ones, and never look at how they
begin, so a name with a digit behind its underscores is written as one that no language accepts.

* `Target.Rust.types code`          the types that code declares;
* `Target.Rust.variants code`       the variants of its enums;
* `Target.Rust.FilesOf`             the file, put together from the code of the types;
* `Target.legal_names_iff`          when all names are legal;
* `Target.exists_illegal_name`      a type whose name is a digit.
-/

namespace WireCodec

/-- The labels of an enumeration, or the variants of a group. -/
def TypeDef.choices : TypeDef → List String
  | .enumeration t => t.labels
  | .group t => fieldNames t.variants
  | _ => []

namespace Target.Rust

/-! ## Declared names -/

def typeDeclared? (text : String) : Option String :=
  (behind? ["pub struct ", "pub enum "] text.toList).map fun rest =>
    String.ofList (rest.takeWhile fun c => c ≠ ' ' && c ≠ '(')

def variantOf (line : String) : String :=
  String.ofList (line.toList.takeWhile fun c => c ≠ ',' && c ≠ '(')

def stepTypes : CodeStep → List String
  | .line text => (typeDeclared? text).toList
  | .braces opening _ _ => (typeDeclared? opening).toList
  | _ => []

def stepVariants : CodeStep → List String
  | .braces opening _ body =>
    if "pub enum ".toList.isPrefixOf opening.toList then (Page.statements body).map variantOf
    else []
  | _ => []

def types (code : Code) : List String := code.flatMap stepTypes

def variants (code : Code) : List String := code.flatMap stepVariants

/-- The first line of a step does not begin like a public item. -/
def Quiet : CodeStep → Prop
  | .line text => text.toList.head? ≠ some 'p'
  | .braces opening _ _ => opening.toList.head? ≠ some 'p'
  | _ => True

section
variable {text name word tail : String} {step : CodeStep} {front back body : Code}

theorem typeDeclared?_eq_none (h : text.toList.head? ≠ some 'p') : typeDeclared? text = none := by
  unfold typeDeclared?
  cases hcs : text.toList with
  | nil => rfl
  | cons c cs =>
    have hc : c ≠ 'p' := fun heq => h (by rw [hcs, heq]; rfl)
    simp [behind?, List.isPrefixOf?, hc.symm]

theorem Quiet.stepTypes_eq_nil (h : Quiet step) : stepTypes step = [] := by
  cases step with
  | line text => exact congrArg Option.toList (typeDeclared?_eq_none h)
  | braces opening closing body => exact congrArg Option.toList (typeDeclared?_eq_none h)
  | _ => rfl

theorem Quiet.stepVariants_eq_nil (h : Quiet step) : stepVariants step = [] := by
  cases step with
  | braces opening closing body =>
    refine if_neg fun hbegins => h ?_
    obtain ⟨rest, hrest⟩ := List.isPrefixOf_iff_prefix.1 hbegins
    rw [← hrest]
    rfl
  | _ => rfl

theorem types_append (front back : Code) : types (front ++ back) = types front ++ types back :=
  List.flatMap_append

theorem variants_append (front back : Code) :
    variants (front ++ back) = variants front ++ variants back :=
  List.flatMap_append

theorem types_eq_nil (h : ∀ step ∈ body, Quiet step) : types body = [] :=
  List.flatMap_eq_nil_iff.2 fun step hstep => (h step hstep).stepTypes_eq_nil

theorem variants_eq_nil (h : ∀ step ∈ body, Quiet step) : variants body = [] :=
  List.flatMap_eq_nil_iff.2 fun step hstep => (h step hstep).stepVariants_eq_nil

/-- Among quiet steps only one step declares anything. -/
theorem declared_framed (hfront : ∀ step ∈ front, Quiet step) (hback : ∀ step ∈ back, Quiet step) :
    types (front ++ step :: back) = stepTypes step ∧
      variants (front ++ step :: back) = stepVariants step := by
  rw [types_append, variants_append, types_eq_nil hfront, variants_eq_nil hfront]
  show stepTypes step ++ types back = _ ∧ stepVariants step ++ variants back = _
  rw [types_eq_nil hback, variants_eq_nil hback, List.append_nil, List.append_nil]
  exact ⟨rfl, rfl⟩

theorem typeDeclared?_eq_some (word tail : String) (htext : text = word ++ (name ++ tail))
    (hword : word ∈ ["pub struct ", "pub enum "]) (hname : C.IsWord name)
    (htail : ∀ c ∈ tail.toList.head?, c = ' ' ∨ c = '(') : typeDeclared? text = some name := by
  have hbehind : behind? ["pub struct ", "pub enum "] text.toList =
      some (name.toList ++ tail.toList) := by
    rw [htext, String.toList_append, String.toList_append]
    rcases List.mem_pair.1 hword with rfl | rfl
    · simp [behind?, List.isPrefixOf?]
    · simp [behind?, List.isPrefixOf?]
  rw [typeDeclared?, hbehind, Option.map_some, takeWhile_until (ne_marks rfl rfl hname) htail,
    String.ofList_toList]

theorem variantOf_eq (tail : String) (htext : text = name ++ tail) (hname : C.IsWord name)
    (htail : ∀ c ∈ tail.toList.head?, c = ',' ∨ c = '(') : variantOf text = name := by
  rw [variantOf, htext, String.toList_append, takeWhile_until (ne_marks rfl rfl hname) htail,
    String.ofList_toList]

theorem isWord_typeName {n : String} (h : Text.isIdentifier n = true) : C.IsWord (typeName n) := by
  unfold typeName Text.escapeKeyword
  have hpascal : C.IsWord (Text.pascalCase n) := Text.isIdentifierRest_of_mem_pascalCase h
  split
  · exact hpascal.append (List.forall_mem_singleton.2 rfl)
  · exact hpascal

end

/-! ## Builders -/

def typeNames : TypeDef → List String
  | .builtin _ => []
  | d => [typeName d.name]

/-- Code declares the type of a definition and the variants that it has. -/
structure Declares (d : TypeDef) (code : Code) : Prop where
  types_eq : types code = typeNames d
  variants_eq : (∀ n ∈ d.choices, Text.isIdentifier n = true) →
    variants code = d.choices.map typeName

section
variable {d : TypeDef} {refer : Referrer} {code : Code}

theorem declares_framed {front back : Code} {step : CodeStep}
    (hfront : ∀ step ∈ front, Quiet step) (hback : ∀ step ∈ back, Quiet step)
    (htypes : stepTypes step = typeNames d)
    (hvariants : (∀ n ∈ d.choices, Text.isIdentifier n = true) →
      stepVariants step = d.choices.map typeName) : Declares d (front ++ step :: back) := by
  obtain ⟨heq, heq'⟩ := declared_framed hfront hback
  exact ⟨heq.trans htypes, fun h => heq'.trans (hvariants h)⟩

section
variable {name : String} (hname : C.IsWord name) (body : Code)
include hname

theorem stepTypes_struct : stepTypes (Code.block s!"pub struct {name}" body) = [name] :=
  congrArg Option.toList (typeDeclared?_eq_some "pub struct " " \x7b" String.append_assoc
    List.mem_cons_self hname (by simp))

theorem stepTypes_enum : stepTypes (Code.block s!"pub enum {name}" body) = [name] :=
  congrArg Option.toList (typeDeclared?_eq_some "pub enum " " \x7b" String.append_assoc
    (List.mem_cons_of_mem _ List.mem_cons_self) hname (by simp))

theorem stepTypes_tuple {field : String} (hfield : ∀ c ∈ field.toList.head?, c = ' ' ∨ c = '(') :
    stepTypes (.line ("pub struct " ++ (name ++ field))) = [name] :=
  congrArg Option.toList (typeDeclared?_eq_some "pub struct " field rfl List.mem_cons_self hname
    hfield)

end

theorem stepVariants_enum (name : String) (body : Code) :
    stepVariants (Code.block s!"pub enum {name}" body) = (Page.statements body).map variantOf := by
  refine if_pos ?_
  simp [List.isPrefixOf, toString_string]

theorem stepVariants_struct (name : String) (body : Code) :
    stepVariants (Code.block s!"pub struct {name}" body) = [] := by
  refine if_neg ?_
  simp [List.isPrefixOf, toString_string]

theorem variantOf_label {l : String} (h : Text.isIdentifier l = true) :
    variantOf s!"{typeName l}," = typeName l :=
  variantOf_eq "," rfl (isWord_typeName h) (by simp)

theorem map_variantOf_payloads {fields : List Field} {lines : List String}
    (h : (fields.mapM fun v => do return s!"{typeName v.name}({← refer v.typeName}),") = .ok lines)
    (hnames : ∀ n ∈ fieldNames fields, Text.isIdentifier n = true) :
    lines.map variantOf = (fieldNames fields).map typeName := by
  have hlines := mapM_eq_ok_iff.1 h
  clear h
  induction hlines with
  | nil => rfl
  | @cons v line fields lines hline _ ih =>
    obtain ⟨hv, hfields⟩ := List.forall_mem_cons.1 hnames
    obtain ⟨payload, -, hend⟩ := except_bind_eq_ok_iff.1 hline
    cases hend
    have hvariant : variantOf s!"{typeName v.name}({payload})," = typeName v.name :=
      variantOf_eq ("(" ++ payload ++ "),") (by simp only [toString_string, String.append_assoc])
        (isWord_typeName hv) (by simp)
    rw [List.map_cons, hvariant, ih hfields]
    rfl

theorem declares_arrayDeclaration {doc element limit refused : String} {value : Nat}
    (hname : Text.isIdentifier d.name = true) (hnames : typeNames d = [typeName d.name])
    (hchoices : d.choices = []) :
    Declares d (arrayDeclaration doc d.name element limit refused value) := by
  have hstruct : stepTypes (.line s!"pub struct {typeName d.name}(Vec<{element}>);") =
      [typeName d.name] := by
    simp only [toString_string, String.append_assoc]
    exact stepTypes_tuple (isWord_typeName hname) (by simp)
  refine @declares_framed _ [_, _] [_, _] _ ?_ ?_ (hstruct.trans hnames.symm) fun _ => ?_
  · simp [Quiet, toString_string]
  · simp [Quiet, Code.block, Code.blockUntil, toString_string]
  · rw [hchoices]
    rfl

theorem declares_declaration (hname : Text.isIdentifier d.name = true)
    (h : (builder d.kind).declaration refer d = .ok code) : Declares d code := by
  cases d with
  | builtin b =>
    cases h
    exact ⟨rfl, fun _ => rfl⟩
  | scalar t =>
    obtain ⟨_, ht, h⟩ := except_bind_eq_ok_iff.1 h
    cases ht
    obtain ⟨inner, -, hend⟩ := except_bind_eq_ok_iff.1 h
    cases hend
    have hstruct : stepTypes (.line s!"pub struct {typeName t.name}(pub {inner});") =
        [typeName t.name] := by
      simp only [toString_string, String.append_assoc]
      exact stepTypes_tuple (isWord_typeName hname) (by simp)
    refine @declares_framed _ [_, _] [_, _] _ ?_ ?_ hstruct fun _ => rfl
    · simp [Quiet, toString_string]
    · simp [Quiet, Code.block, Code.blockUntil, toString_string]
  | enumeration t =>
    obtain ⟨_, ht, h⟩ := except_bind_eq_ok_iff.1 h
    cases ht
    obtain ⟨tag, -, hend⟩ := except_bind_eq_ok_iff.1 h
    cases hend
    refine @declares_framed _ [_] [_, _] _ ?_ ?_ (stepTypes_enum (isWord_typeName hname) _) ?_
    · simp [Quiet]
    · simp [Quiet, Code.block, Code.blockUntil, toString_string]
    · intro hlabels
      rw [stepVariants_enum, Page.statements_lines, List.map_map]
      exact List.map_congr_left fun l hl => variantOf_label (hlabels l hl)
  | composite t =>
    obtain ⟨_, ht, h⟩ := except_bind_eq_ok_iff.1 h
    cases ht
    obtain ⟨members, -, hend⟩ := except_bind_eq_ok_iff.1 h
    cases hend
    refine @declares_framed _ [_] [] _ ?_ ?_ (stepTypes_struct (isWord_typeName hname) _) ?_
    · simp [Quiet]
    · exact List.forall_mem_nil _
    · exact fun _ => stepVariants_struct _ _
  | fixedArray t =>
    obtain ⟨_, ht, h⟩ := except_bind_eq_ok_iff.1 h
    cases ht
    obtain ⟨element, -, hend⟩ := except_bind_eq_ok_iff.1 h
    cases hend
    exact declares_arrayDeclaration hname rfl rfl
  | variableArray t =>
    obtain ⟨_, ht, h⟩ := except_bind_eq_ok_iff.1 h
    cases ht
    obtain ⟨element, -, hend⟩ := except_bind_eq_ok_iff.1 h
    cases hend
    exact declares_arrayDeclaration hname rfl rfl
  | group t =>
    obtain ⟨_, ht, h⟩ := except_bind_eq_ok_iff.1 h
    cases ht
    obtain ⟨tag, -, h⟩ := except_bind_eq_ok_iff.1 h
    obtain ⟨payloads, hpayloads, hend⟩ := except_bind_eq_ok_iff.1 h
    cases hend
    refine @declares_framed _ [_] [_, _] _ ?_ ?_ (stepTypes_enum (isWord_typeName hname) _) ?_
    · simp [Quiet]
    · simp [Quiet, Code.block, Code.blockUntil, toString_string]
    · intro hvariants
      rw [stepVariants_enum, Page.statements_lines]
      exact map_variantOf_payloads hpayloads hvariants

/-- Only builtins, whose codecs are in the runtime library, have no implementation. -/
theorem pack_cases (h : (builder d.kind).pack refer d = .ok code) :
    ((∃ b, d = .builtin b) ∧ code = []) ∨
      d.kind ≠ .builtin ∧ ∃ body, code = packImpl (typeName d.name) body := by
  cases d with
  | builtin b => exact .inl ⟨⟨b, rfl⟩, (Except.ok.inj h).symm⟩
  | variableArray t =>
    obtain ⟨_, ht, h⟩ := except_bind_eq_ok_iff.1 h
    cases ht
    obtain ⟨size, -, hend⟩ := except_bind_eq_ok_iff.1 h
    exact .inr ⟨by rintro ⟨⟩, _, (Except.ok.inj hend).symm⟩
  | _ =>
    obtain ⟨_, ht, hend⟩ := except_bind_eq_ok_iff.1 h
    cases ht
    exact .inr ⟨by rintro ⟨⟩, _, (Except.ok.inj hend).symm⟩

theorem unpack_cases (h : (builder d.kind).unpack refer d = .ok code) :
    ((∃ b, d = .builtin b) ∧ code = []) ∨
      d.kind ≠ .builtin ∧ ∃ body, code = unpackImpl (typeName d.name) body := by
  cases d with
  | builtin b => exact .inl ⟨⟨b, rfl⟩, (Except.ok.inj h).symm⟩
  | variableArray t =>
    obtain ⟨_, ht, h⟩ := except_bind_eq_ok_iff.1 h
    cases ht
    obtain ⟨size, -, h⟩ := except_bind_eq_ok_iff.1 h
    obtain ⟨element, -, hend⟩ := except_bind_eq_ok_iff.1 h
    exact .inr ⟨by rintro ⟨⟩, _, (Except.ok.inj hend).symm⟩
  | group t =>
    obtain ⟨_, ht, h⟩ := except_bind_eq_ok_iff.1 h
    cases ht
    obtain ⟨tag, -, h⟩ := except_bind_eq_ok_iff.1 h
    obtain ⟨calls, -, hend⟩ := except_bind_eq_ok_iff.1 h
    exact .inr ⟨by rintro ⟨⟩, _, (Except.ok.inj hend).symm⟩
  | _ =>
    obtain ⟨_, ht, h⟩ := except_bind_eq_ok_iff.1 h
    cases ht
    obtain ⟨inner, -, hend⟩ := except_bind_eq_ok_iff.1 h
    exact .inr ⟨by rintro ⟨⟩, _, (Except.ok.inj hend).symm⟩

theorem quiet_pack (h : (builder d.kind).pack refer d = .ok code) : ∀ step ∈ code, Quiet step := by
  rcases pack_cases h with ⟨-, rfl⟩ | ⟨-, body, rfl⟩
  · exact List.forall_mem_nil _
  · simp [packImpl, Quiet, Code.block, Code.blockUntil, toString_string]

theorem quiet_unpack (h : (builder d.kind).unpack refer d = .ok code) :
    ∀ step ∈ code, Quiet step := by
  rcases unpack_cases h with ⟨-, rfl⟩ | ⟨-, body, rfl⟩
  · exact List.forall_mem_nil _
  · simp [unpackImpl, Quiet, Code.block, Code.blockUntil, toString_string]

end

/-! ## Files -/

/-- The file, put together from the code of the types. -/
structure FilesOf (ctx : RenderContext) (codes : List Code) (files : List GeneratedFile) :
    Prop where
  rendered : List.Forall₂ (fun d code => renderType ctx d = .ok code) ctx.schema.ordered codes
  files : files = [⟨ctx.project ++ ".rs", (Page.ofSteps unit (source ctx codes)).text⟩]

section
variable {ctx : RenderContext} {d : TypeDef} {code : Code} {codes : List Code}
  {files : List GeneratedFile}

theorem exists_filesOf (h : emit ctx = .ok files) : ∃ codes, FilesOf ctx codes files := by
  obtain ⟨codes, hcodes, hend⟩ := except_bind_eq_ok_iff.1 h
  exact ⟨codes, mapM_eq_ok_iff.1 hcodes, (Except.ok.inj hend).symm⟩

theorem exists_type_eq (h : ctx.Renders backend) (hcode : renderType ctx d = .ok code) :
    ∃ declaration pack unpack,
      (builder d.kind).declaration ctx.reference d = .ok declaration ∧
      (builder d.kind).pack ctx.reference d = .ok pack ∧
      (builder d.kind).unpack ctx.reference d = .ok unpack ∧
      code = [.blank] ++ declaration ++ [.blank] ++ pack ++ [.blank] ++ unpack := by
  obtain ⟨declaration, hdeclaration, hcode⟩ := except_bind_eq_ok_iff.1 hcode
  obtain ⟨pack, hpack, hcode⟩ := except_bind_eq_ok_iff.1 hcode
  obtain ⟨unpack, hunpack, hend⟩ := except_bind_eq_ok_iff.1 hcode
  rw [h.declaration_eq] at hdeclaration
  rw [h.pack_eq] at hpack
  rw [h.unpack_eq] at hunpack
  exact ⟨declaration, pack, unpack, hdeclaration, hpack, hunpack, (Except.ok.inj hend).symm⟩

theorem declares_type (h : ctx.Renders backend) (hname : Text.isIdentifier d.name = true)
    (hcode : renderType ctx d = .ok code) : Declares d code := by
  obtain ⟨declaration, pack, unpack, hdeclaration, hpack, hunpack, rfl⟩ := exists_type_eq h hcode
  obtain ⟨htypes, hvariants⟩ := declares_declaration hname hdeclaration
  have hquietPack := quiet_pack hpack
  have hquietUnpack := quiet_unpack hunpack
  refine ⟨?_, fun hchoices => ?_⟩
  · simp only [types_append, types_eq_nil hquietPack, types_eq_nil hquietUnpack, htypes]
    exact (List.append_nil _).trans ((List.append_nil _).trans
      ((List.append_nil _).trans (List.append_nil _)))
  · simp only [variants_append, variants_eq_nil hquietPack, variants_eq_nil hquietUnpack,
      hvariants hchoices]
    exact (List.append_nil _).trans ((List.append_nil _).trans
      ((List.append_nil _).trans (List.append_nil _)))

theorem types_source (ctx : RenderContext) (codes : List Code) :
    types (source ctx codes) = codes.flatMap types ∧
      variants (source ctx codes) = codes.flatMap variants := by
  have hcodes : types codes.flatten = codes.flatMap types ∧
      variants codes.flatten = codes.flatMap variants := by
    induction codes with
    | nil => exact ⟨rfl, rfl⟩
    | cons code codes ih =>
      rw [List.flatten_cons, types_append, variants_append, ih.1, ih.2, List.flatMap_cons,
        List.flatMap_cons]
      exact ⟨rfl, rfl⟩
  unfold source
  rw [types_append, variants_append, hcodes.1, hcodes.2]
  refine ⟨List.append_left_eq_self.2 ?_, rfl⟩
  simp [types, stepTypes, typeDeclared?, behind?, List.isPrefixOf?, toString_string]

/-- The file declares a type for every definition, and the variants that it has. -/
theorem FilesOf.declared_source (hfiles : FilesOf ctx codes files) (h : ctx.Renders backend)
    (hnames : ∀ d ∈ ctx.schema.definitions, Text.isIdentifier d.name = true) :
    types (source ctx codes) = ctx.schema.ordered.flatMap typeNames ∧
      ((∀ d ∈ ctx.schema.ordered, ∀ n ∈ d.choices, Text.isIdentifier n = true) →
        variants (source ctx codes) =
          ctx.schema.ordered.flatMap fun d => d.choices.map typeName) := by
  have hmem : ∀ d ∈ ctx.schema.ordered, Text.isIdentifier d.name = true :=
    fun d hd => hnames d (h.consistent.listed.mem_iff.1 hd)
  rw [(types_source ctx codes).1, (types_source ctx codes).2]
  obtain ⟨hrendered, -⟩ := hfiles
  generalize ctx.schema.ordered = ds at hmem hrendered
  induction hrendered with
  | nil => exact ⟨rfl, fun _ => rfl⟩
  | cons hcode _ ih =>
    obtain ⟨hd, hds⟩ := List.forall_mem_cons.1 hmem
    obtain ⟨htype, hvariant⟩ := declares_type h hd hcode
    obtain ⟨ihtypes, ihvariants⟩ := ih hds
    refine ⟨?_, fun hchoices => ?_⟩
    · rw [List.flatMap_cons, List.flatMap_cons, htype, ihtypes]
    · obtain ⟨hd, hds⟩ := List.forall_mem_cons.1 hchoices
      rw [List.flatMap_cons, List.flatMap_cons, hvariant hd, ihvariants hds]

end

theorem mem_backends : backend ∈ backends :=
  List.mem_cons_of_mem _ (List.mem_cons_of_mem _ List.mem_cons_self)

section
variable {name version : String} {declared : List TypeDef} {s : Schema} {r : Registry}
  {project : String} {files : List GeneratedFile}

theorem exists_declared (hs : Schema.build name version declared = .ok s)
    (hoffers : r.Offers backend) (hfiles : r.generate s language project = .ok files) :
    ∃ codes, FilesOf (r.context language project s) codes files ∧
      types (source (r.context language project s) codes) = s.ordered.flatMap typeNames ∧
      ((∀ d ∈ s.ordered, ∀ n ∈ d.choices, Text.isIdentifier n = true) →
        variants (source (r.context language project s) codes) =
          s.ordered.flatMap fun d => d.choices.map typeName) := by
  obtain ⟨-, -, hemit⟩ := hoffers.generate_eq_ok_iff.1 hfiles
  obtain ⟨codes, hcodes⟩ := exists_filesOf hemit
  have hrenders : (r.context language project s).Renders backend :=
    hoffers.renders_context mem_backends (Schema.consistent_of_build hs) project
  refine ⟨codes, hcodes, hcodes.declared_source hrenders ?_⟩
  exact fun d hd => Schema.isIdentifier_of_mem_names hs (List.mem_map_of_mem hd)

end
end Target.Rust

/-! ## Legal names -/

section
variable {name version : String} {declared : List TypeDef} {s : Schema}

namespace Target

theorem Rust.isTypeName_typeName {n : String} (h : Text.isIdentifier n = true) :
    Text.isTypeName (Rust.typeName n) = Text.opensWithLetter n := by
  rw [Rust.typeName, Text.isTypeName_escapeKeyword, Text.isTypeName_pascalCase h]

theorem Rust.legal_typeNames_iff (hs : Schema.build name version declared = .ok s) :
    (∀ n ∈ s.ordered.flatMap Rust.typeNames, Text.isTypeName n = true) ↔
      ∀ d ∈ declared, Text.opensWithLetter d.name = true := by
  obtain ⟨-, -, hcoherent, -⟩ := Schema.build_eq_ok_iff.1 hs
  rw [List.forall_mem_flatMap,
    Schema.forall_ordered_iff hs fun _ => List.forall_mem_nil _]
  refine forall₂_congr fun d hd => ?_
  have hname : Rust.typeNames d = [Rust.typeName d.name] := by
    cases d with
    | builtin b => exact absurd rfl (hcoherent.declarable _ hd)
    | _ => rfl
  rw [hname, List.forall_mem_singleton, Rust.isTypeName_typeName (hcoherent.identifiers d hd)]

theorem Rust.legal_choices_iff (hs : Schema.build name version declared = .ok s)
    (hchoices : ∀ d ∈ declared, ∀ n ∈ d.choices, Text.isIdentifier n = true) :
    (∀ n ∈ s.ordered.flatMap fun d => d.choices.map Rust.typeName, Text.isTypeName n = true) ↔
      ∀ d ∈ declared, ∀ n ∈ d.choices, Text.opensWithLetter n = true := by
  rw [List.forall_mem_flatMap,
    Schema.forall_ordered_iff hs fun _ => List.forall_mem_nil _]
  refine forall₂_congr fun d hd => ?_
  rw [List.forall_mem_map]
  refine forall₂_congr fun n hn => ?_
  rw [Rust.isTypeName_typeName (hchoices d hd n hn)]

theorem Ruby.legal_classNames_iff (hs : Schema.build name version declared = .ok s) :
    (∀ n ∈ s.ordered.map Ruby.className, Text.isTypeName n = true) ↔
      ∀ d ∈ declared, Text.opensWithLetter d.name = true := by
  obtain ⟨-, -, hcoherent, -⟩ := Schema.build_eq_ok_iff.1 hs
  have hbuiltin : ∀ b, Text.isTypeName (Ruby.className (.builtin b)) = true := by
    intro b
    cases b <;> rfl
  rw [List.forall_mem_map, Schema.forall_ordered_iff hs hbuiltin]
  refine forall₂_congr fun d hd => ?_
  have hname : Ruby.className d = Text.pascalCase d.name := by
    cases d with
    | builtin b => exact absurd rfl (hcoherent.declarable _ hd)
    | _ => rfl
  rw [hname, Text.isTypeName_pascalCase (hcoherent.identifiers d hd)]

/-- The types of a generated Rust file are named by an upper case letter with letters, digits and
underscores behind it exactly if the first character other than an underscore in the name of every
declared type is a letter, and so are the variants if labels and variants are identifiers.  The
module and the classes of a Ruby file are named so if that goes for the project as well. -/
theorem legal_names_iff (hs : Schema.build name version declared = .ok s) :
    ∃ r, Registry.withBackends = .ok r ∧ ∀ project files,
      (r.generate s Rust.language project = .ok files →
        ∃ codes, Rust.FilesOf (r.context Rust.language project s) codes files ∧
          ((∀ n ∈ Rust.types (Rust.source (r.context Rust.language project s) codes),
              Text.isTypeName n = true) ↔
            ∀ d ∈ declared, Text.opensWithLetter d.name = true) ∧
          ((∀ d ∈ declared, ∀ n ∈ d.choices, Text.isIdentifier n = true) →
            ((∀ n ∈ Rust.variants (Rust.source (r.context Rust.language project s) codes),
                Text.isTypeName n = true) ↔
              ∀ d ∈ declared, ∀ n ∈ d.choices, Text.opensWithLetter n = true))) ∧
      (r.generate s Ruby.language project = .ok files →
        ∃ classes, Ruby.FilesOf (r.context Ruby.language project s) classes files ∧
          ((∀ n ∈ Ruby.opened (Ruby.source (r.context Ruby.language project s) classes),
              Text.isTypeName n = true) ↔
            Text.opensWithLetter project = true ∧
              ∀ d ∈ declared, Text.opensWithLetter d.name = true)) := by
  obtain ⟨r, hr, hoffers⟩ := Registry.exists_withBackends
  refine ⟨r, hr, fun project files => ⟨fun hfiles => ?_, fun hfiles => ?_⟩⟩
  · have hrust := hoffers Rust.backend Rust.mem_backends
    obtain ⟨codes, hcodes, htypes, hvariants⟩ := Rust.exists_declared hs hrust hfiles
    refine ⟨codes, hcodes, ?_, fun hchoices => ?_⟩
    · rw [htypes]
      exact Rust.legal_typeNames_iff hs
    · have hlisted : ∀ d ∈ s.ordered, ∀ n ∈ d.choices, Text.isIdentifier n = true :=
        (Schema.forall_ordered_iff hs fun _ => List.forall_mem_nil _).2 hchoices
      rw [hvariants hlisted]
      exact Rust.legal_choices_iff hs hchoices
  · have hruby := hoffers Ruby.backend Ruby.mem_backends
    obtain ⟨hproject, -, -⟩ := hruby.generate_eq_ok_iff.1 hfiles
    obtain ⟨classes, hclasses, -, -, hopened⟩ := Ruby.exists_opened hs hruby hfiles
    have hruntime : ∀ n ∈ Ruby.runtimeNames, Text.isTypeName n = true := by decide
    refine ⟨classes, hclasses, ?_⟩
    rw [hopened, List.forall_mem_cons, List.forall_mem_append, and_iff_right hruntime,
      Text.isTypeName_pascalCase hproject, Ruby.legal_classNames_iff hs]

/-- What the check of Rust comes to: the types are distinct, none is in scope everywhere, and each
definition passes on its own. -/
theorem Rust.check_eq_ok_iff {ctx : RenderContext} :
    Rust.check ctx = .ok () ↔
      (∀ d ∈ ctx.schema.declared, Rust.typeName d.name ∉ Rust.ambientTypes) ∧
      (ctx.schema.declared.map fun d => Rust.typeName d.name).Nodup ∧
      ∀ d ∈ ctx.schema.declared, Rust.checkDefinition ctx.language d = .ok () :=
  checkAll_eq_ok_iff

/-- An enumeration with underscores around its names, and a group of it. -/
def tones : List TypeDef :=
  [.enumeration ⟨"_tone", ["low__", "HIGH_2"], List.cons_ne_nil _ _, of_decide_eq_true rfl,
      Nat.le_of_ble_eq_true rfl⟩,
    .group ⟨"signal", [⟨"_plain", "_tone"⟩], List.cons_ne_nil _ _, List.nodup_singleton _,
      Nat.le_of_ble_eq_true rfl⟩]

theorem legal_names_tones :
    ∃ s, Schema.build "tones" "1.0.0" tones = .ok s ∧ ∃ r, Registry.withBackends = .ok r ∧
      (∃ files, r.generate s Rust.language "demo" = .ok files ∧
        ∃ codes, Rust.FilesOf (r.context Rust.language "demo" s) codes files ∧
          (∀ n ∈ Rust.types (Rust.source (r.context Rust.language "demo" s) codes),
            Text.isTypeName n = true) ∧
          ∀ n ∈ Rust.variants (Rust.source (r.context Rust.language "demo" s) codes),
            Text.isTypeName n = true) ∧
      ∃ files, r.generate s Ruby.language "demo" = .ok files ∧
        ∃ classes, Ruby.FilesOf (r.context Ruby.language "demo" s) classes files ∧
          ∀ n ∈ Ruby.opened (Ruby.source (r.context Ruby.language "demo" s) classes),
            Text.isTypeName n = true := by
  have hrun : (Schema.build "tones" "1.0.0" tones).map Schema.name = .ok "tones" := by rfl
  obtain ⟨s, hs, -⟩ := exists_of_map_eq_ok hrun
  obtain ⟨-, -, -, -, hdeclared, -⟩ := Schema.build_eq_ok_iff.1 hs
  obtain ⟨r, hr, h⟩ := legal_names_iff hs
  obtain ⟨_, hr', hoffers⟩ := Registry.exists_withBackends
  cases hr.symm.trans hr'
  have hproject : Text.isIdentifier "demo" = true := rfl
  refine ⟨s, hs, r, hr, ?_, ?_⟩
  · have hcheck : Rust.check (r.context Rust.language "demo" s) = .ok () := by
      refine Rust.check_eq_ok_iff.2 ?_
      rw [show (r.context Rust.language "demo" s).schema.declared = tones from hdeclared]
      refine ⟨by decide, by decide, List.forall_mem_cons.2 ⟨?_, List.forall_mem_singleton.2 ?_⟩⟩
      · exact checkScope_eq_ok_iff.2 (by decide)
      · exact checkScope_eq_ok_iff.2 (by decide)
    obtain ⟨files, hfiles⟩ := (hoffers _ Rust.mem_backends).exists_generate Rust.mem_backends
      (Schema.consistent_of_build hs) hproject hcheck
    obtain ⟨codes, hcodes, htypes, hvariants⟩ := (h "demo" files).1 hfiles
    exact ⟨files, hfiles, codes, hcodes, htypes.2 (by decide),
      (hvariants (by decide)).2 (by decide)⟩
  · have hcheck : Ruby.check (r.context Ruby.language "demo" s) = .ok () := by
      refine Ruby.check_eq_ok_iff.2 ?_
      rw [show (r.context Ruby.language "demo" s).schema.declared = tones from hdeclared]
      refine ⟨by decide, by decide, List.forall_mem_cons.2 ⟨rfl, List.forall_mem_singleton.2 rfl⟩⟩
    obtain ⟨files, hfiles⟩ := (hoffers _ Ruby.mem_backends).exists_generate Ruby.mem_backends
      (Schema.consistent_of_build hs) hproject hcheck
    obtain ⟨classes, hclasses, hopened⟩ := (h "demo" files).2 hfiles
    exact ⟨files, hfiles, classes, hclasses, hopened.2 ⟨rfl, by decide⟩⟩

def digit : TypeDef := .scalar ⟨"_1", .uint8⟩

/-- Both languages declare a type of the name `1`. -/
theorem exists_illegal_name :
    ∃ s r, Schema.build "s" "1.0.0" [digit] = .ok s ∧ Registry.withBackends = .ok r ∧
      (∃ files codes, r.generate s Rust.language "demo" = .ok files ∧
        Rust.FilesOf (r.context Rust.language "demo" s) codes files ∧
        "1" ∈ Rust.types (Rust.source (r.context Rust.language "demo" s) codes)) ∧
      (∃ files classes, r.generate s Ruby.language "demo" = .ok files ∧
        Ruby.FilesOf (r.context Ruby.language "demo" s) classes files ∧
        "1" ∈ Ruby.opened (Ruby.source (r.context Ruby.language "demo" s) classes)) ∧
      Text.isTypeName "1" = false := by
  have hrun : (Schema.build "s" "1.0.0" [digit]).map Schema.name = .ok "s" := by rfl
  obtain ⟨s, hs, -⟩ := exists_of_map_eq_ok hrun
  obtain ⟨-, -, -, -, hdeclared, -⟩ := Schema.build_eq_ok_iff.1 hs
  obtain ⟨r, hr, hoffers⟩ := Registry.exists_withBackends
  have hproject : Text.isIdentifier "demo" = true := rfl
  have hlisted : digit ∈ s.ordered := by
    refine (Schema.consistent_of_build hs).listed.mem_iff.2 (List.mem_append_right _ ?_)
    rw [hdeclared]
    exact List.mem_cons_self
  refine ⟨s, r, hs, hr, ?_, ?_, rfl⟩
  · have hcheck : Rust.check (r.context Rust.language "demo" s) = .ok () := by
      refine Rust.check_eq_ok_iff.2 ?_
      rw [show (r.context Rust.language "demo" s).schema.declared = [digit] from hdeclared]
      exact ⟨by decide, by decide, List.forall_mem_singleton.2 rfl⟩
    obtain ⟨files, hfiles⟩ := (hoffers _ Rust.mem_backends).exists_generate Rust.mem_backends
      (Schema.consistent_of_build hs) hproject hcheck
    obtain ⟨codes, hcodes, htypes, -⟩ :=
      Rust.exists_declared hs (hoffers _ Rust.mem_backends) hfiles
    refine ⟨files, codes, hfiles, hcodes, ?_⟩
    rw [htypes]
    exact List.mem_flatMap.2 ⟨digit, hlisted, List.mem_singleton.2 rfl⟩
  · have hcheck : Ruby.check (r.context Ruby.language "demo" s) = .ok () := by
      refine Ruby.check_eq_ok_iff.2 ?_
      rw [show (r.context Ruby.language "demo" s).schema.declared = [digit] from hdeclared]
      exact ⟨by decide, by decide, List.forall_mem_singleton.2 rfl⟩
    obtain ⟨files, hfiles⟩ := (hoffers _ Ruby.mem_backends).exists_generate Ruby.mem_backends
      (Schema.consistent_of_build hs) hproject hcheck
    obtain ⟨classes, hclasses, -, -, hopened⟩ :=
      Ruby.exists_opened hs (hoffers _ Ruby.mem_backends) hfiles
    refine ⟨files, classes, hfiles, hclasses, ?_⟩
    rw [hopened]
    refine List.mem_cons_of_mem _ (List.mem_append_right _ ?_)
    exact List.mem_map.2 ⟨digit, hlisted, rfl⟩

end Target
end
end WireCodec
