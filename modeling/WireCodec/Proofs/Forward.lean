import WireCodec.Proofs.Headers
import WireCodec.Proofs.Loading
import WireCodec.Proofs.TypeNames

/-!
# No forward references

The types of a schema are rendered in dependency order, and each of them once.  So no language uses
what is defined further down.  In C and Ruby, where the order of a file matters, this is read off
the files.

* `Target.Rust.implemented code`   the traits that code implements, with the types;
* `Target.Rust.InOrder`            the file of a schema has one declaration and one implementation
                                   of each trait for each type;
* `Schema.defined_before_use`      every language defines a type before it uses it.
-/

namespace WireCodec

/-! ## Rust files -/

namespace Target.Rust

def pieces (cs : List Char) : List String := (cs.splitOnP (· = ' ')).map String.ofList

/-- The trait and the type of an implementation with a head of these pieces. -/
def implements? : List String → Option (String × String)
  | ["impl", traitName, "for", name, _] => some (traitName, name)
  | _ => none

def stepImplemented : CodeStep → List (String × String)
  | .braces opening _ _ => (implements? (pieces opening.toList)).toList
  | _ => []

def implemented (code : Code) : List (String × String) := code.flatMap stepImplemented

/-- The implementations that belong to a type.  Those of builtins are in the runtime library. -/
def implementations : TypeDef → List (String × String)
  | .builtin _ => []
  | d => [("wire::Pack", typeName d.name), ("wire::Unpack", typeName d.name)]

section
variable {name : String} {refer : Referrer} {d : TypeDef} {code : Code}

theorem implemented_append (front back : Code) :
    implemented (front ++ back) = implemented front ++ implemented back :=
  List.flatMap_append

theorem stepImplemented_block (head : List Char) (hname : C.IsWord name) (body : Code) :
    stepImplemented (Code.block (String.ofList (head ++ [' ']) ++ name) body) =
      (implements? (pieces head ++ [name, "\x7b"])).toList := by
  have htext : (String.ofList (head ++ [' ']) ++ name ++ " \x7b").toList =
      head ++ ' ' :: (name.toList ++ ' ' :: ['\x7b']) := by
    simp
  have hblank : ∀ c ∈ name.toList, decide (c = ' ') = false := by
    intro c hc
    refine decide_eq_false ?_
    rintro rfl
    cases hname _ hc
  have hpieces : pieces (String.ofList (head ++ [' ']) ++ name ++ " \x7b").toList =
      pieces head ++ [name, "\x7b"] := by
    rw [pieces, htext, List.splitOnP_append_cons _ _ rfl, List.splitOnP_append_cons _ _ rfl,
      List.splitOnP_eq_singleton hblank, List.map_append]
    show _ ++ [String.ofList name.toList, "\x7b"] = _
    rw [String.ofList_toList, pieces]
  rw [← hpieces]
  rfl

theorem implemented_packImpl (hname : C.IsWord name) (body : Code) :
    implemented (packImpl name body) = [("wire::Pack", name)] :=
  (List.flatMap_singleton _ _).trans (stepImplemented_block "impl wire::Pack for".toList hname _)

theorem implemented_unpackImpl (hname : C.IsWord name) (body : Code) :
    implemented (unpackImpl name body) = [("wire::Unpack", name)] :=
  (List.flatMap_singleton _ _).trans (stepImplemented_block "impl wire::Unpack for".toList hname _)

theorem implemented_line (text : String) (code : Code) :
    implemented (.line text :: code) = implemented code :=
  rfl

theorem implemented_blank (code : Code) : implemented (.blank :: code) = implemented code :=
  rfl

theorem implemented_struct (hname : C.IsWord name) (body code : Code) :
    implemented (Code.block s!"pub struct {name}" body :: code) = implemented code :=
  congrArg (· ++ implemented code) (stepImplemented_block "pub struct".toList hname body)

theorem implemented_enum (hname : C.IsWord name) (body code : Code) :
    implemented (Code.block s!"pub enum {name}" body :: code) = implemented code :=
  congrArg (· ++ implemented code) (stepImplemented_block "pub enum".toList hname body)

theorem implemented_impl (hname : C.IsWord name) (body code : Code) :
    implemented (Code.block s!"impl {name}" body :: code) = implemented code :=
  congrArg (· ++ implemented code) (stepImplemented_block "impl".toList hname body)

theorem implemented_arrayDeclaration {doc schemaName element limit refused : String} {value : Nat}
    (hname : C.IsWord (typeName schemaName)) :
    implemented (arrayDeclaration doc schemaName element limit refused value) = [] := by
  rw [arrayDeclaration, implemented_line, implemented_line, implemented_line, implemented_blank,
    implemented_impl hname]
  rfl

/-- Declarations implement no traits. -/
theorem implemented_declaration (hname : Text.isIdentifier d.name = true)
    (h : (builder d.kind).declaration refer d = .ok code) : implemented code = [] := by
  cases d with
  | builtin b =>
    cases h
    rfl
  | scalar t =>
    obtain ⟨_, ht, h⟩ := except_bind_eq_ok_iff.1 h
    cases ht
    obtain ⟨inner, hinner, hend⟩ := except_bind_eq_ok_iff.1 h
    cases hend
    have hword : C.IsWord (typeName t.name) := isWord_typeName hname
    rw [implemented_line, implemented_line, implemented_line, implemented_blank,
      implemented_impl hword]
    rfl
  | enumeration t =>
    obtain ⟨_, ht, h⟩ := except_bind_eq_ok_iff.1 h
    cases ht
    obtain ⟨tag, htag, hend⟩ := except_bind_eq_ok_iff.1 h
    cases hend
    have hword : C.IsWord (typeName t.name) := isWord_typeName hname
    rw [implemented_line, implemented_enum hword, implemented_blank, implemented_impl hword]
    rfl
  | composite t =>
    obtain ⟨_, ht, h⟩ := except_bind_eq_ok_iff.1 h
    cases ht
    obtain ⟨members, hmembers, hend⟩ := except_bind_eq_ok_iff.1 h
    cases hend
    have hword : C.IsWord (typeName t.name) := isWord_typeName hname
    rw [implemented_line, implemented_struct hword]
    rfl
  | group t =>
    obtain ⟨_, ht, h⟩ := except_bind_eq_ok_iff.1 h
    cases ht
    obtain ⟨tag, htag, h⟩ := except_bind_eq_ok_iff.1 h
    obtain ⟨variants, hvariants, hend⟩ := except_bind_eq_ok_iff.1 h
    cases hend
    have hword : C.IsWord (typeName t.name) := isWord_typeName hname
    rw [implemented_line, implemented_enum hword, implemented_blank, implemented_impl hword]
    rfl
  | _ =>
    obtain ⟨_, ht, h⟩ := except_bind_eq_ok_iff.1 h
    cases ht
    obtain ⟨element, helement, hend⟩ := except_bind_eq_ok_iff.1 h
    cases hend
    exact implemented_arrayDeclaration (isWord_typeName hname)

theorem implemented_type {ctx : RenderContext} (h : ctx.Renders backend)
    (hname : Text.isIdentifier d.name = true) (hcode : renderType ctx d = .ok code) :
    implemented code = implementations d := by
  obtain ⟨declaration, pack, unpack, hdeclaration, hpack, hunpack, rfl⟩ := exists_type_eq h hcode
  have hparts : implemented ([.blank] ++ declaration ++ [.blank] ++ pack ++ [.blank] ++ unpack) =
      implemented pack ++ implemented unpack := by
    have hblank : implemented [.blank] = [] := rfl
    simp only [implemented_append, implemented_declaration hname hdeclaration, hblank,
      List.append_nil, List.nil_append]
  have hword : C.IsWord (typeName d.name) := isWord_typeName hname
  rw [hparts]
  rcases pack_cases hpack with ⟨⟨b, rfl⟩, rfl⟩ | ⟨hd, body, rfl⟩
  · cases hunpack
    rfl
  · rcases unpack_cases hunpack with ⟨⟨b, rfl⟩, -⟩ | ⟨-, body', rfl⟩
    · exact absurd rfl hd
    · rw [implemented_packImpl hword, implemented_unpackImpl hword]
      cases d with
      | builtin b => exact absurd rfl hd
      | _ => rfl

end

/-- The file of a schema has the declaration and the implementations of each type once, in the order
of the types. -/
structure InOrder (ctx : RenderContext) (codes : List Code) : Prop where
  types : types (source ctx codes) = ctx.schema.ordered.flatMap typeNames
  implemented : implemented (source ctx codes) = ctx.schema.ordered.flatMap implementations

section
variable {name version : String} {declared : List TypeDef} {s : Schema} {r : Registry}
  {project : String} {files : List GeneratedFile}

theorem exists_inOrder (hs : Schema.build name version declared = .ok s)
    (hoffers : r.Offers backend) (hfiles : r.generate s language project = .ok files) :
    ∃ codes, FilesOf (r.context language project s) codes files ∧
      InOrder (r.context language project s) codes := by
  obtain ⟨codes, hcodes, htypes, -⟩ := exists_declared hs hoffers hfiles
  have hconsistent := Schema.consistent_of_build hs
  have hrenders : (r.context language project s).Renders backend :=
    hoffers.renders_context mem_backends hconsistent project
  have hsource : implemented (source (r.context language project s) codes) =
      codes.flatMap implemented := by
    rw [source, implemented_append, implemented, implemented, ← List.flatMap_id, List.flatMap_assoc]
    rfl
  refine ⟨codes, hcodes, htypes, hsource.trans (flatMap_eq_of_forall₂ ?_)⟩
  refine ((List.forall₂_and_left _ _).2 ⟨fun d hd => hd, hcodes.rendered⟩).imp ?_
  rintro d code ⟨hd, hcode⟩
  exact implemented_type hrenders (Schema.isIdentifier_of_mem_names hs
    (List.mem_map_of_mem (hconsistent.listed.mem_iff.1 hd))) hcode

end
end Target.Rust

/-! ## Languages -/

namespace Schema

section
variable {name version : String} {declared before after : List TypeDef} {s : Schema} {d : TypeDef}
  {r : Registry}

/-- The code of a type relies on itself and on the types in front of it. -/
theorem reliesOn_before (hs : build name version declared = .ok s)
    (hsplit : s.ordered = before ++ d :: after) (hoffers : ∀ b ∈ backends, r.Offers b) :
    ∀ b ∈ backends, ∀ render ∈ [(b.builder d.kind).declaration, (b.builder d.kind).pack,
      (b.builder d.kind).unpack], ∀ project,
      (r.context b.language project s).ReliesOn (d.name :: before.map TypeDef.name) render d := by
  intro b hb render hrender project
  have hmem := ((consistent_of_build hs).mem_of_split hsplit).2
  have hcited : ∀ n ∈ d.cited, n ∈ d.name :: before.map TypeDef.name :=
    List.forall_mem_cons.2 ⟨List.mem_cons_self,
      fun n hn => List.mem_cons_of_mem _ (uses_before hs hsplit n hn)⟩
  have hrenders := (hoffers b hb).renders_context hb (consistent_of_build hs) project
  have hserves := serves_of_mem_backends hb d
  simp only [List.mem_cons, List.not_mem_nil, or_false] at hrender
  rcases hrender with rfl | rfl | rfl
  · exact hrenders.reliesOn hmem hcited hserves.declaration
  · exact hrenders.reliesOn hmem hcited hserves.pack
  · exact hrenders.reliesOn hmem hcited hserves.unpack

/-- Each type comes once and behind those that it uses, and its code in every language relies on
nothing else.  Files have what belongs to the types in that order: one declaration and one routine
for packing and for unpacking each.  If labels, fields and variants are identifiers, members in C
have types that are declared above, routines in C call such that are defined above, and classes in
Ruby look up such that are open already. -/
theorem defined_before_use (hs : build name version declared = .ok s) :
    s.ordered.Perm s.definitions ∧ (s.ordered.map TypeDef.name).Nodup ∧
    ∃ r, Registry.withBackends = .ok r ∧
      (∀ before d after, s.ordered = before ++ d :: after →
        (∀ n ∈ d.uses, n ∈ before.map TypeDef.name) ∧
        (∀ b ∈ backends, ∀ render ∈ [(b.builder d.kind).declaration, (b.builder d.kind).pack,
          (b.builder d.kind).unpack], ∀ project,
          (r.context b.language project s).ReliesOn (d.name :: before.map TypeDef.name) render d) ∧
        (∀ project code, (r.context Target.C.language project s).pack d = .ok code ∨
          (r.context Target.C.language project s).unpack d = .ok code →
          ∀ n, n ∈ Target.C.callees code ↔ n ∈ d.uses) ∧
        ∀ project parent,
          Target.Ruby.superclass (r.context Target.Ruby.language project s) d = .ok parent →
          parent = "Wire::Builtin" ∨ parent = "Wire::Type" ∨ ∃ n ∈ before.map TypeDef.name,
            (r.context Target.Ruby.language project s).reference n = .ok parent) ∧
      ∀ project files,
        (r.generate s Target.Rust.language project = .ok files →
          ∃ codes, Target.Rust.FilesOf (r.context Target.Rust.language project s) codes files ∧
            Target.Rust.InOrder (r.context Target.Rust.language project s) codes) ∧
        ((∀ d ∈ declared, ∀ n ∈ d.entries, Text.isIdentifier n = true) →
          (r.generate s Target.C.language project = .ok files →
            ∃ sections, Target.C.FilesOf (r.context Target.C.language project s) sections files ∧
              Target.C.InOrder (r.context Target.C.language project s) sections) ∧
          (r.generate s Target.Ruby.language project = .ok files →
            ∃ classes,
              Target.Ruby.FilesOf (r.context Target.Ruby.language project s) classes files ∧
              Target.Ruby.InOrder (r.context Target.Ruby.language project s) classes)) := by
  have hconsistent := consistent_of_build hs
  have hnodup : (s.ordered.map TypeDef.name).Nodup :=
    (hconsistent.listed.map TypeDef.name).nodup_iff.2 hconsistent.distinct
  obtain ⟨r, hr, hoffers⟩ := Registry.exists_withBackends
  refine ⟨hconsistent.listed, hnodup, r, hr, ?_, ?_⟩
  · intro before d after hsplit
    have huses := uses_before hs hsplit
    refine ⟨huses, reliesOn_before hs hsplit hoffers, ?_, ?_⟩
    · intro project code hcode n
      have hmem := (hconsistent.mem_of_split hsplit).2
      exact Target.C.mem_callees_iff
        ((hoffers _ List.mem_cons_self).renders_context List.mem_cons_self hconsistent project)
        (fun n hn => isIdentifier_of_mem_names hs (hconsistent.resolved d hmem n hn)) hcode n
    · intro project parent hparent
      rcases Target.Ruby.superclass_eq_ok hparent with h | h | ⟨n, hn, h⟩
      · exact .inl h
      · exact .inr (.inl h)
      · exact .inr (.inr ⟨n, huses n hn, h⟩)
  · intro project files
    refine ⟨Target.Rust.exists_inOrder hs (hoffers _ Target.Rust.mem_backends), fun hentries => ?_⟩
    exact ⟨Target.C.exists_inOrder hs hentries (hoffers _ List.mem_cons_self),
      Target.Ruby.exists_inOrder hs hentries (hoffers _ Target.Ruby.mem_backends)⟩

end

open Sample

/-- The pair is declared first, but all languages write its side in front of it. -/
theorem defined_before_use_pairs :
    ∃ s, build "pairs" "1.0.0" Pairs.definitions = .ok s ∧ ∃ r, Registry.withBackends = .ok r ∧
      (∃ files codes, r.generate s Target.Rust.language "demo" = .ok files ∧
        Target.Rust.FilesOf (r.context Target.Rust.language "demo" s) codes files ∧
        Target.Rust.InOrder (r.context Target.Rust.language "demo" s) codes) ∧
      (∃ files sections, r.generate s Target.C.language "demo" = .ok files ∧
        Target.C.FilesOf (r.context Target.C.language "demo" s) sections files ∧
        Target.C.InOrder (r.context Target.C.language "demo" s) sections) ∧
      ∃ files classes, r.generate s Target.Ruby.language "demo" = .ok files ∧
        Target.Ruby.FilesOf (r.context Target.Ruby.language "demo" s) classes files ∧
        Target.Ruby.InOrder (r.context Target.Ruby.language "demo" s) classes := by
  obtain ⟨s, hs⟩ := Pairs.exists_build
  obtain ⟨-, -, -, -, hdeclared, -⟩ := build_eq_ok_iff.1 hs
  obtain ⟨-, -, r, hr, -, h⟩ := defined_before_use hs
  obtain ⟨_, hr', hoffers⟩ := Registry.exists_withBackends
  cases hr.symm.trans hr'
  have hconsistent := consistent_of_build hs
  have hproject : Text.isIdentifier "demo" = true := rfl
  have hentries : ∀ d ∈ Pairs.definitions, ∀ n ∈ d.entries, Text.isIdentifier n = true := by
    decide
  refine ⟨s, hs, r, hr, ?_, ?_, ?_⟩
  · have hcheck : Target.Rust.check (r.context Target.Rust.language "demo" s) = .ok () := by
      refine Target.Rust.check_eq_ok_iff.2 ?_
      rw [show (r.context Target.Rust.language "demo" s).schema.declared = _ from hdeclared]
      exact ⟨by decide, by decide, List.forall_mem_cons.2 ⟨rfl, List.forall_mem_singleton.2 rfl⟩⟩
    obtain ⟨files, hfiles⟩ := (hoffers _ Target.Rust.mem_backends).exists_generate
      Target.Rust.mem_backends hconsistent hproject hcheck
    obtain ⟨codes, hcodes, horder⟩ := (h "demo" files).1 hfiles
    exact ⟨files, codes, hfiles, hcodes, horder⟩
  · obtain ⟨files, hfiles⟩ := (hoffers _ List.mem_cons_self).exists_generate List.mem_cons_self
      hconsistent hproject (Registry.check_pairs hdeclared)
    obtain ⟨sections, hsections, horder⟩ := ((h "demo" files).2 hentries).1 hfiles
    exact ⟨files, sections, hfiles, hsections, horder⟩
  · have hcheck : Target.Ruby.check (r.context Target.Ruby.language "demo" s) = .ok () := by
      refine Target.Ruby.check_eq_ok_iff.2 ?_
      rw [show (r.context Target.Ruby.language "demo" s).schema.declared = _ from hdeclared]
      exact ⟨by decide, by decide, List.forall_mem_cons.2 ⟨rfl, List.forall_mem_singleton.2 rfl⟩⟩
    obtain ⟨files, hfiles⟩ := (hoffers _ Target.Ruby.mem_backends).exists_generate
      Target.Ruby.mem_backends hconsistent hproject hcheck
    obtain ⟨classes, hclasses, horder⟩ := ((h "demo" files).2 hentries).2 hfiles
    exact ⟨files, classes, hfiles, hclasses, horder⟩

end Schema

namespace Target.Ruby

/-- A label that is no identifier, in front of the type whose class it names. -/
def heralded : List TypeDef :=
  [.enumeration ⟨"early", ["x, Later"], List.cons_ne_nil _ _, of_decide_eq_true rfl,
      Nat.le_of_ble_eq_true rfl⟩,
    .scalar ⟨"later", .uint8⟩]

/-- The class of the enumeration looks up a class that is opened further down. -/
theorem exists_forward_reference :
    ∃ s r files classes, Schema.build "s" "1.0.0" heralded = .ok s ∧
      Registry.withBackends = .ok r ∧ r.generate s language "demo" = .ok files ∧
      FilesOf (r.context language "demo" s) classes files ∧
      ∃ front line back, loaded classes.flatten = front ++ line :: back ∧
        "Later" ∈ evaluated line ∧ "Later" ∉ runtimePaths ++ front.filterMap openedPath? ∧
        "Later" ∈ back.filterMap openedPath? := by
  have hrun : (Schema.build "s" "1.0.0" heralded).map Schema.ordered =
      .ok (Schema.builtins ++ heralded) := by
    rfl
  obtain ⟨s, hs, hordered⟩ := exists_of_map_eq_ok hrun
  obtain ⟨-, -, -, -, hdeclared, -⟩ := Schema.build_eq_ok_iff.1 hs
  obtain ⟨r, hr, hoffers⟩ := Registry.exists_withBackends
  have hoffer := hoffers _ mem_backends
  have hproject : Text.isIdentifier "demo" = true := rfl
  have hcheck : check (r.context language "demo" s) = .ok () := by
    refine check_eq_ok_iff.2 ?_
    rw [show (r.context language "demo" s).schema.declared = heralded from hdeclared]
    exact ⟨by decide, by decide, List.forall_mem_cons.2 ⟨rfl, List.forall_mem_singleton.2 rfl⟩⟩
  obtain ⟨files, hfiles⟩ := hoffer.exists_generate mem_backends
    (Schema.consistent_of_build hs) hproject hcheck
  obtain ⟨classes, hclasses, hrenders, -⟩ := exists_opened hs hoffer hfiles
  refine ⟨s, r, files, classes, hs, hr, hfiles, hclasses, ?_⟩
  have hdefinitions : ∀ d ∈ Schema.builtins ++ heralded, d ∈ s.definitions := by
    intro d hd
    exact (Schema.consistent_of_build hs).listed.mem_iff.1 (hordered ▸ hd)
  have hnames : ∀ d ∈ s.definitions, Text.isIdentifier d.name = true :=
    fun d hd => Schema.isIdentifier_of_mem_names hs (List.mem_map_of_mem hd)
  have hrendered := hclasses.rendered
  rw [show (r.context language "demo" s).schema.ordered = _ from hordered] at hrendered
  obtain ⟨hbuiltins, hheralded⟩ := List.forall_mem_append.1 hdefinitions
  obtain ⟨hearly, hlater⟩ := List.forall_mem_cons.1 hheralded
  obtain ⟨front, early, back, rfl, hfront, hcode, hback⟩ := exists_split_of_forall₂ hrendered
  obtain ⟨head, rest, hhead, hlines⟩ := exists_loaded_enumeration hrenders hearly rfl hcode
  refine ⟨front.flatMap loaded ++ [head], "LABELS = [" ++ symbols ["x, Later"] ++ "].freeze",
    rest ++ back.flatMap loaded, ?_, ?_, ?_, ?_⟩
  · rw [loaded_flatten, List.flatMap_append, List.flatMap_cons, hlines, List.append_assoc]
    rfl
  · exact List.contains_iff_mem.1 rfl
  · rw [List.filterMap_append, openedPath?_classes hrenders hbuiltins hnames hfront,
      List.filterMap_cons_some hhead]
    decide
  · rw [List.filterMap_append, openedPath?_classes hrenders hlater hnames hback]
    exact List.mem_append_right _ List.mem_cons_self

end Target.Ruby
end WireCodec
