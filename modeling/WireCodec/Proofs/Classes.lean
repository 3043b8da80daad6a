import WireCodec.Proofs.Bodies

/-!
# Classes of Ruby files

A file of Ruby code is one module, and in it stand the modules and classes of the runtime and one
class for every type.

* `Target.Ruby.FilesOf`             the file, put together from the classes of the types;
* `Target.Ruby.opened code`         the classes and modules that code opens;
* `Target.Ruby.renderClass_eq_ok`   the lines of the class of a type;
* `Target.Ruby.FilesOf.opened_source`
                                    the classes and modules of the file.
-/

namespace WireCodec

/-- A check of the names of all types, and of each type on its own. -/
theorem checkAll_eq_ok_iff {language scope : String} {reserved : List String}
    {declared : List TypeDef} {mangle : String → String}
    {checkEach : TypeDef → Except TargetError Unit} :
    (do checkScope language scope reserved
          (declared.map fun (d : TypeDef) => ⟨d.name, mangle d.name⟩)
        declared.forM checkEach) = .ok () ↔
      (∀ d ∈ declared, mangle d.name ∉ reserved) ∧ (declared.map fun d => mangle d.name).Nodup ∧
      ∀ d ∈ declared, checkEach d = .ok () := by
  have hscope : checkScope language scope reserved
      (declared.map fun d => ⟨d.name, mangle d.name⟩) = .ok () ↔
        (∀ d ∈ declared, mangle d.name ∉ reserved) ∧
        (declared.map fun d => mangle d.name).Nodup := by
    rw [checkScope_eq_ok_iff, List.forall_mem_map, List.map_map]
    rfl
  rw [except_bind_eq_ok_iff, ← and_assoc, ← hscope, ← forM_eq_ok_iff]
  constructor
  · intro h
    obtain ⟨_, hnames, heach⟩ := h
    exact ⟨hnames, heach⟩
  · exact fun h => ⟨(), h⟩

namespace Target.Ruby

/-! ## Files -/

/-- The file, put together from the classes of the types. -/
structure FilesOf (ctx : RenderContext) (classes : List Code) (files : List GeneratedFile) :
    Prop where
  rendered : List.Forall₂ (fun d code => renderClass ctx d = .ok code) ctx.schema.ordered classes
  files : files = [⟨ctx.project ++ ".rb", (Page.ofSteps unit (source ctx classes)).text⟩]

/-- The class of a type, without the module of the runtime. -/
def className : TypeDef → String
  | .builtin b => builtinClass b
  | d => Text.pascalCase d.name

def classPath : TypeDef → String
  | .builtin b => "Wire::" ++ builtinClass b
  | d => Text.pascalCase d.name

def opened (code : Code) : List String := (Page.statements code).filterMap opened?

def runtimeNames : List String :=
  ["Wire", "Error", "RangeError", "LengthError", "TruncatedBufferError", "InvalidEnumerationValue",
    "InvalidVariantError", "TrailingBytesError", "Reader", "Type", "Builtin"]

theorem eq_map_of_forall₂ {lines : List String} {texts : List (List Char)}
    (h : List.Forall₂ (fun line cs => line = String.ofList cs) lines texts) :
    lines = texts.map String.ofList := by
  induction h with
  | nil => rfl
  | cons hline _ ih => rw [List.map_cons, hline, ih]

set_option maxRecDepth 4096 in
/-- Read as characters, the lines of the runtime open its classes and modules, and mention no
constants but those and ambient ones. -/
theorem exists_runtime_eq_map :
    ∃ texts : List (List Char), runtime = texts.map String.ofList ∧
      texts.filterMap openedIn? = runtimeNames ∧
      (texts.all fun cs => (Scan.start.gather (cs ++ ['\n'])).all
        ((runtimeNames ++ ambient).contains ·)) = true := by
  apply Exists.intro
  apply And.intro
  · apply eq_map_of_forall₂
    dsimp only [runtime]
    repeat (apply List.Forall₂.cons; rfl)
    exact .nil
  · exact ⟨rfl, rfl⟩

theorem filterMap_opened?_runtime : runtime.filterMap opened? = runtimeNames := by
  obtain ⟨texts, hruntime, hopened, -⟩ := exists_runtime_eq_map
  have hcomp : opened? ∘ String.ofList = openedIn? := by
    funext cs
    exact congrArg openedIn? String.toList_ofList
  rw [hruntime, List.filterMap_map, hcomp, hopened]

section
variable {ctx : RenderContext} {d : TypeDef} {code : Code} {classes : List Code}
  {files : List GeneratedFile}

theorem exists_filesOf (h : emit ctx = .ok files) : ∃ classes, FilesOf ctx classes files := by
  obtain ⟨classes, hclasses, hend⟩ := except_bind_eq_ok_iff.1 h
  exact ⟨classes, mapM_eq_ok_iff.1 hclasses, (Except.ok.inj hend).symm⟩

theorem reference_eq_classPath (h : ctx.Renders backend) (hd : d ∈ ctx.schema.definitions) :
    ctx.reference d.name = .ok (classPath d) := by
  rw [h.reference_eq hd]
  cases d <;> rfl

theorem exists_class_eq (h : ctx.Renders backend) (hd : d ∈ ctx.schema.definitions)
    (hcode : renderClass ctx d = .ok code) :
    ∃ parent declaration pack unpack, superclass ctx d = .ok parent ∧
      (builder d.kind).declaration ctx.reference d = .ok declaration ∧
      (builder d.kind).pack ctx.reference d = .ok pack ∧
      (builder d.kind).unpack ctx.reference d = .ok unpack ∧
      code = [.blank, closed s!"class {classPath d} < {parent}"
        (joinParts [declaration, pack, unpack])] := by
  obtain ⟨declaration, hdeclaration, hcode⟩ := except_bind_eq_ok_iff.1 hcode
  obtain ⟨pack, hpack, hcode⟩ := except_bind_eq_ok_iff.1 hcode
  obtain ⟨unpack, hunpack, hcode⟩ := except_bind_eq_ok_iff.1 hcode
  obtain ⟨name, hname, hcode⟩ := except_bind_eq_ok_iff.1 hcode
  obtain ⟨parent, hparent, hend⟩ := except_bind_eq_ok_iff.1 hcode
  cases hend
  rw [reference_eq_classPath h hd] at hname
  cases hname
  rw [h.declaration_eq] at hdeclaration
  rw [h.pack_eq] at hpack
  rw [h.unpack_eq] at hunpack
  exact ⟨parent, declaration, pack, unpack, hparent, hdeclaration, hpack, hunpack, rfl⟩

theorem renderClass_eq_ok (h : ctx.Renders backend) (hd : d ∈ ctx.schema.definitions)
    (hcode : renderClass ctx d = .ok code) :
    ∃ parent declaration pack unpack, superclass ctx d = .ok parent ∧
      (builder d.kind).declaration ctx.reference d = .ok declaration ∧
      (builder d.kind).pack ctx.reference d = .ok pack ∧
      (builder d.kind).unpack ctx.reference d = .ok unpack ∧
      Page.statements code = s!"class {classPath d} < {parent}" ::
        (Page.statements (declaration ++ pack ++ unpack) ++ ["end"]) := by
  obtain ⟨parent, declaration, pack, unpack, hparent, hdeclaration, hpack, hunpack, rfl⟩ :=
    exists_class_eq h hd hcode
  refine ⟨parent, declaration, pack, unpack, hparent, hdeclaration, hpack, hunpack, ?_⟩
  have hparts : Page.statements (joinParts [declaration, pack, unpack]) =
      Page.statements (declaration ++ pack ++ unpack) := by
    rw [statements_joinParts, Page.statements_append, Page.statements_append, List.append_assoc]
    show _ ++ (_ ++ (_ ++ [])) = _
    rw [List.append_nil]
  rw [← hparts]
  show [] ++ ((_ :: (_ ++ ["end"])) ++ []) = _
  rw [List.append_nil]
  rfl

def IsClassPath (ctx : RenderContext) (text : String) : Prop :=
  ∃ e ∈ ctx.schema.definitions, text = classPath e

theorem bodyLines_of_rendered {declaration pack unpack : Code} (h : ctx.Renders backend)
    (hd : d ∈ ctx.schema.definitions)
    (hdeclaration : (builder d.kind).declaration ctx.reference d = .ok declaration)
    (hpack : (builder d.kind).pack ctx.reference d = .ok pack)
    (hunpack : (builder d.kind).unpack ctx.reference d = .ok unpack) :
    BodyLines d (IsClassPath ctx) (declaration ++ pack ++ unpack) := by
  have hrefer : ∀ n ∈ d.cited, ∀ text, ctx.reference n = .ok text → IsClassPath ctx text := by
    intro n hn text htext
    obtain ⟨e, he, rfl⟩ := List.mem_map.1 (h.consistent.cited_mem_names hd n hn)
    rw [reference_eq_classPath h he] at htext
    exact ⟨e, he, (Except.ok.inj htext).symm⟩
  have hbuiltin : ∀ b : Builtin, ctx.reference b.name = .ok ("Wire::" ++ builtinClass b) :=
    fun b => reference_eq_classPath h (List.mem_append_left _ (Schema.mem_builtins.2 ⟨b, rfl⟩))
  refine bodyLines_append.2 ⟨bodyLines_append.2 ⟨?_, ?_⟩, ?_⟩
  · exact bodyLines_declaration hdeclaration hrefer
  · exact bodyLines_pack hpack hbuiltin
  · exact bodyLines_unpack hunpack hrefer

theorem isIdentifierRest_of_mem_className (hname : Text.isIdentifier d.name = true) :
    ∀ c ∈ (className d).toList, Text.isIdentifierRest c = true := by
  cases d with
  | builtin b => cases b <;> exact List.all_eq_true.1 rfl
  | _ => exact Text.isIdentifierRest_of_mem_pascalCase hname

theorem opened?_class (hname : Text.isIdentifier d.name = true) (parent : String) :
    opened? s!"class {classPath d} < {parent}" = some (className d) := by
  have hpath : ∃ outer ∈ ["", "Wire::"], classPath d = outer ++ className d := by
    cases d with
    | builtin b => exact ⟨_, List.mem_cons_of_mem _ List.mem_cons_self, rfl⟩
    | _ => exact ⟨_, List.mem_cons_self, String.empty_append.symm⟩
  obtain ⟨outer, houter, hpath⟩ := hpath
  have hline : s!"class {classPath d} < {parent}" =
      "class " ++ (outer ++ (className d ++ (" " ++ ("< " ++ parent)))) := by
    rw [hpath]
    simp only [toString_string, String.append_assoc]
    rfl
  rw [hline]
  exact opened?_eq_some List.mem_cons_self houter (isIdentifierRest_of_mem_className hname)
    (by simp)

/-- Rendering a type opens its class and nothing else. -/
theorem opened_class (h : ctx.Renders backend) (hd : d ∈ ctx.schema.definitions)
    (hname : Text.isIdentifier d.name = true) (hcode : renderClass ctx d = .ok code) :
    opened code = [className d] := by
  obtain ⟨parent, declaration, pack, unpack, -, hdeclaration, hpack, hunpack, hlines⟩ :=
    renderClass_eq_ok h hd hcode
  have hbody := bodyLines_of_rendered h hd hdeclaration hpack hunpack
  have hnone :
      (Page.statements (declaration ++ pack ++ unpack) ++ ["end"]).filterMap opened? = [] := by
    rw [List.filterMap_eq_nil_iff, List.forall_mem_append, List.forall_mem_singleton]
    exact ⟨fun line hline => (hbody line hline).opened?_eq_none, rfl⟩
  rw [opened, hlines, List.filterMap_cons, opened?_class hname parent, hnone]

theorem statements_framed (comment head : String) (front texts : List String) (code : Code) :
    Page.statements [.line comment, .blank,
      closed head (Code.lines front ++ [.blank] ++ Code.lines texts ++ code)] =
        [comment, head] ++ (front ++ (texts ++ (Page.statements code ++ ["end"]))) := by
  rw [Page.statements_cons, Page.statements_cons, Page.statements_cons]
  show comment :: ([] ++ ((head :: (Page.statements _ ++ ["end"])) ++ [])) = _
  rw [Page.statements_append, Page.statements_append, Page.statements_append,
    Page.statements_lines, Page.statements_lines, List.append_nil, List.append_assoc,
    List.append_assoc, List.append_assoc]
  rfl

theorem exists_statements_source (ctx : RenderContext) (classes : List Code) :
    ∃ comment schemaName schemaVersion : String,
      (∀ line ∈ [comment, schemaName, schemaVersion], opened? line = none) ∧
      Page.statements (source ctx classes) =
        [comment, s!"module {Text.pascalCase ctx.project}"] ++ ([schemaName, schemaVersion] ++
          (runtime ++ (Page.statements classes.flatten ++ ["end"]))) := by
  refine ⟨_, _, _, ?_, statements_framed _ _ [_, _] runtime classes.flatten⟩
  rw [List.forall_mem_cons, List.forall_mem_cons, List.forall_mem_singleton]
  simp only [toString_string, String.append_assoc]
  exact ⟨opened?_eq_none rfl _, opened?_eq_none rfl _, opened?_eq_none rfl _⟩

/-- The file opens the module of the project, the classes of the runtime, and those of the types. -/
theorem FilesOf.opened_source (hfiles : FilesOf ctx classes files) (h : ctx.Renders backend)
    (hproject : Text.isIdentifier ctx.project = true)
    (hnames : ∀ d ∈ ctx.schema.definitions, Text.isIdentifier d.name = true) :
    classes.flatMap opened = ctx.schema.ordered.map className ∧
      opened (source ctx classes) =
        Text.pascalCase ctx.project :: (runtimeNames ++ ctx.schema.ordered.map className) := by
  have hclasses : classes.flatMap opened = ctx.schema.ordered.map className := by
    have hmem : ∀ d ∈ ctx.schema.ordered, d ∈ ctx.schema.definitions :=
      fun d => h.consistent.listed.mem_iff.1
    obtain ⟨hrendered, -⟩ := hfiles
    generalize ctx.schema.ordered = ds at hmem hrendered
    induction hrendered with
    | nil => rfl
    | cons hcode _ ih =>
      obtain ⟨hd, hds⟩ := List.forall_mem_cons.1 hmem
      rw [List.flatMap_cons, List.map_cons, opened_class h hd (hnames _ hd) hcode, ih hds]
      rfl
  refine ⟨hclasses, ?_⟩
  have hflat : opened classes.flatten = classes.flatMap opened := by
    rw [opened, Page.statements_flatten, List.filterMap_flatMap]
    rfl
  have hmodule : opened? s!"module {Text.pascalCase ctx.project}" =
      some (Text.pascalCase ctx.project) := by
    have hopens : opened? ("module " ++ ("" ++ (Text.pascalCase ctx.project ++ ""))) = _ :=
      opened?_eq_some (List.mem_cons_of_mem _ List.mem_cons_self) List.mem_cons_self
        (Text.isIdentifierRest_of_mem_pascalCase hproject) (by simp)
    rwa [String.empty_append, String.append_empty] at hopens
  obtain ⟨comment, schemaName, schemaVersion, hnone, hlines⟩ := exists_statements_source ctx classes
  rw [opened, hlines, List.filterMap_append, List.filterMap_append, List.filterMap_append,
    List.filterMap_append, filterMap_opened?_runtime, ← hclasses, ← hflat]
  rw [List.filterMap_cons_none (hnone comment List.mem_cons_self), List.filterMap_cons_some hmodule,
    List.filterMap_eq_nil_iff.2 fun line hline => hnone line (List.mem_cons_of_mem _ hline)]
  show [_] ++ ([] ++ (runtimeNames ++ (opened classes.flatten ++ []))) = _
  rw [List.append_nil]
  rfl

end

/-- What the check of Ruby comes to: the classes are distinct, none is the module of the runtime,
and each definition passes on its own. -/
theorem check_eq_ok_iff {ctx : RenderContext} :
    check ctx = .ok () ↔
      (∀ d ∈ ctx.schema.declared, Text.pascalCase d.name ∉ ["Wire"]) ∧
      (ctx.schema.declared.map fun d => Text.pascalCase d.name).Nodup ∧
      ∀ d ∈ ctx.schema.declared, checkDefinition ctx.language d = .ok () :=
  checkAll_eq_ok_iff

theorem mem_backends : backend ∈ backends :=
  List.mem_cons_of_mem _ List.mem_cons_self

section
variable {name version : String} {declared : List TypeDef} {s : Schema} {r : Registry}
  {project : String} {files : List GeneratedFile}

/-- What is generated is put together from classes, and opens them along with the module of the
project and the runtime. -/
theorem exists_opened (hs : Schema.build name version declared = .ok s) (hoffers : r.Offers backend)
    (hfiles : r.generate s language project = .ok files) :
    ∃ classes, FilesOf (r.context language project s) classes files ∧
      (r.context language project s).Renders backend ∧
      classes.flatMap opened = s.ordered.map className ∧
      opened (source (r.context language project s) classes) =
        Text.pascalCase project :: (runtimeNames ++ s.ordered.map className) := by
  obtain ⟨hproject, -, hemit⟩ := hoffers.generate_eq_ok_iff.1 hfiles
  obtain ⟨classes, hclasses⟩ := exists_filesOf hemit
  have hrenders : (r.context language project s).Renders backend :=
    hoffers.renders_context mem_backends (Schema.consistent_of_build hs) project
  refine ⟨classes, hclasses, hrenders, hclasses.opened_source hrenders hproject ?_⟩
  exact fun d hd => Schema.isIdentifier_of_mem_names hs (List.mem_map_of_mem hd)

end

end Target.Ruby
end WireCodec
