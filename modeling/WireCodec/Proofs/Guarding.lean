import WireCodec.Proofs.Identifiers

/-!
# The guard of a C header

A header is guarded by a macro that is named after the project.  No check looks at the name of the
project, so the macro may be one that the prelude guards itself with, or a name that belongs to a
type.

* `Target.C.words text`            the words of a line;
* `Target.C.tested code`           the macros that code tests;
* `Target.C.members code`          the members of structs and of unions inside them;
* `Target.C.guardRivals d`         the names of a type that a guard may meet;
* `Target.C.guard_unique_iff`      when the guard of a header is no other name of the header;
* `Target.C.exists_guard_rival`    an enumerator and a prelude that have the name of the guard.
-/

namespace WireCodec.Target.C

/-! ## Words -/

def wordRead (w : List Char) : List String :=
  if w = [] then [] else [String.ofList w]

/-- The words of a text behind the beginning `w` of the first one. -/
def wordsFrom (w : List Char) : List Char → List String
  | [] => wordRead w
  | c :: cs =>
    if Text.isIdentifierRest c then wordsFrom (w ++ [c]) cs else wordRead w ++ wordsFrom [] cs

/-- The words of a text; whatever may not stand in an identifier separates them. -/
def words (text : String) : List String :=
  wordsFrom [] text.toList

section
variable {text w : String} {c : Char}

theorem wordsFrom_append_cons (w front back : List Char) (hc : Text.isIdentifierRest c = false) :
    wordsFrom w (front ++ c :: back) = wordsFrom w front ++ wordsFrom [] back := by
  induction front generalizing w with
  | nil =>
    show wordsFrom w (c :: back) = wordRead w ++ _
    rw [wordsFrom, if_neg (by rw [hc]; decide)]
  | cons d front ih =>
    rw [List.cons_append, wordsFrom, wordsFrom]
    split
    · exact ih (w ++ [d])
    · rw [ih [], List.append_assoc]

/-- A blank or the like separates the words around it. -/
theorem words_append (front : String) (sep : Char) (back : String)
    (hsep : Text.isIdentifierRest sep = false)
    (htext : text.toList = front.toList ++ sep :: back.toList) :
    words text = words front ++ words back := by
  unfold words
  rw [htext, wordsFrom_append_cons _ _ _ hsep]

theorem wordsFrom_of_forall {cs : List Char} (w : List Char)
    (h : ∀ c ∈ cs, Text.isIdentifierRest c = true) : wordsFrom w cs = wordRead (w ++ cs) := by
  induction cs generalizing w with
  | nil => rw [List.append_nil, wordsFrom]
  | cons c cs ih =>
    obtain ⟨hc, hcs⟩ := List.forall_mem_cons.1 h
    rw [wordsFrom, if_pos hc, ih (w ++ [c]) hcs, List.append_assoc]
    rfl

theorem words_of_isIdentifier (h : Text.isIdentifier w = true) : words w = [w] := by
  obtain ⟨c, hc, -⟩ := exists_head h
  have hne : w.toList ≠ [] := by
    intro hnil
    rw [hnil] at hc
    cases hc
  rw [words, wordsFrom_of_forall [] fun _ => Text.isIdentifierRest_of_mem h, List.nil_append,
    wordRead, if_neg hne, String.ofList_toList]

end

/-! ## Tests and members -/

def tested? (text : String) : Option String :=
  wordThen? "#ifndef " "" text

def stepTested : CodeStep → List String
  | .line text => (tested? text).toList
  | _ => []

def tested (code : Code) : List String := code.flatMap stepTested

def typeWords : List String := ["const", "struct", "enum"]

/-- The name that a line inside a struct gives to a member: behind the type, or behind the brace
that closes the type.  Of a field whose name is no identifier, that is the first word. -/
def member? (text : String) : Option String :=
  if text.toList.head? = some '\x7d' then (words text).head?
  else ((words text).dropWhile (· ∈ typeWords)).tail.head?

def stepMembers : CodeStep → List String
  | .braces opening _ body =>
    if (structTag? opening).isSome then (Page.statements body).filterMap member? else []
  | _ => []

def members (code : Code) : List String := code.flatMap stepMembers

section
variable {front back : Code} {sections : List Section}

theorem tested_append : tested (front ++ back) = tested front ++ tested back :=
  List.flatMap_append

theorem members_append : members (front ++ back) = members front ++ members back :=
  List.flatMap_append

theorem tested_flatMap (f : Section → Code) :
    tested (sections.flatMap f) = sections.flatMap fun code => tested (f code) :=
  List.flatMap_assoc

theorem members_flatMap (f : Section → Code) :
    members (sections.flatMap f) = sections.flatMap fun code => members (f code) :=
  List.flatMap_assoc

theorem members_lines (texts : List String) : members (Code.lines texts) = [] := by
  induction texts with
  | nil => rfl
  | cons text texts ih => exact ih

theorem members_structBlock {name : String} (hname : IsWord name) (body : Code) :
    members [Code.blockUntil "\x7d;" s!"struct {name}" body] =
      (Page.statements body).filterMap member? := by
  show stepMembers (.braces (s!"struct {name}" ++ " \x7b") _ body) ++ [] = _
  rw [stepMembers, structTag?_struct hname]
  exact List.append_nil _

theorem members_enumBlock (name : String) (body : Code) :
    members [Code.blockUntil "\x7d;" s!"enum {name}" body] = [] := by
  show stepMembers (.braces (s!"enum {name}" ++ " \x7b") _ body) ++ [] = _
  rw [stepMembers, structTag?_enum]
  rfl

end

/-! ## Types of members -/

/-- A text that refers to a type: one word, with the words in front that types have. -/
structure NamesType (text : String) : Prop where
  opens : text.toList.head? ≠ some '\x7d'
  words : ∃ n, (words text).dropWhile (· ∈ typeWords) = [n]
  spelled : String.intercalate " " ((C.words text).erase "const") = text

section
variable {text : String}

/-- Behind its type a member has its name. -/
theorem NamesType.member?_eq {line : String} (h : NamesType text) (rest : String)
    (hline : line.toList = text.toList ++ ' ' :: rest.toList) :
    member? line = (C.words rest).head? := by
  obtain ⟨hopens, ⟨n, hwords⟩, -⟩ := h
  have hhead : line.toList.head? ≠ some '\x7d' := by
    cases htext : text.toList with
    | nil =>
      rw [C.words, htext] at hwords
      cases hwords
    | cons c cs =>
      rw [htext] at hopens hline
      rw [hline]
      exact hopens
  rw [member?, if_neg hhead, words_append text ' ' rest (by decide) hline, List.dropWhile_append,
    hwords]
  rfl

theorem namesType_of_isIdentifier (h : Text.isIdentifier text = true) (hfree : text ∉ typeWords) :
    NamesType text := by
  obtain ⟨c, hc, hrest⟩ := exists_head h
  refine ⟨?_, ⟨text, ?_⟩, ?_⟩
  · rw [hc]
    rintro ⟨⟩
    exact absurd hrest (by decide)
  · rw [words_of_isIdentifier h, List.dropWhile_cons_of_neg (by simpa using hfree)]
  · have hconst : "const" ∉ [text] := fun hmem =>
      hfree (List.mem_singleton.1 hmem ▸ List.mem_cons_self)
    rw [words_of_isIdentifier h, List.erase_of_not_mem hconst, String.intercalate_singleton]

theorem namesType_reference {d : TypeDef} (hname : Text.isIdentifier d.name = true)
    (hfree : d.kind ≠ .builtin → d.name ∉ typeWords)
    (h : (builder d.kind).reference d = .ok text) : NamesType text := by
  have hword : ∀ q ∈ ["struct", "enum"], text = q ++ " " ++ d.name → d.kind ≠ .builtin →
      NamesType text := by
    rintro q hq rfl hkind
    obtain ⟨c, cs, hcs, hc⟩ : ∃ c cs, q.toList = c :: cs ∧ c ≠ '\x7d' := by
      simp only [List.mem_cons, List.not_mem_nil, or_false] at hq
      rcases hq with rfl | rfl
      · exact ⟨_, _, rfl, by decide⟩
      · exact ⟨_, _, rfl, by decide⟩
    obtain ⟨hself, hmem, hconst⟩ : words q = [q] ∧ q ∈ typeWords ∧ "const" ≠ q := by
      simp only [List.mem_cons, List.not_mem_nil, or_false] at hq
      rcases hq with rfl | rfl <;> decide
    have hwords : words (q ++ " " ++ d.name) = [q, d.name] := by
      rw [words_append q ' ' d.name (by decide) (by simp), hself, words_of_isIdentifier hname]
      rfl
    refine ⟨by simpa [hcs] using hc, ⟨d.name, ?_⟩, ?_⟩
    · rw [hwords, List.dropWhile_cons_of_pos (by simpa using hmem),
        List.dropWhile_cons_of_neg (by simpa using hfree hkind)]
    · have hplain : "const" ∉ [q, d.name] := by
        refine List.not_mem_cons_of_ne_of_not_mem hconst fun hd => hfree hkind ?_
        exact List.mem_singleton.1 hd ▸ List.mem_cons_self
      rw [hwords, List.erase_of_not_mem hplain, String.intercalate_cons_cons,
        String.intercalate_singleton]
  cases d with
  | builtin b =>
    cases h
    cases b <;> exact ⟨by decide, ⟨_, rfl⟩, rfl⟩
  | scalar t =>
    cases h
    exact namesType_of_isIdentifier hname (hfree TypeKind.noConfusion)
  | enumeration t =>
    cases h
    exact hword "enum" (by decide) (by simp [toString_string, TypeDef.name]) TypeKind.noConfusion
  | _ =>
    cases h
    exact hword "struct" (by decide) (by simp [toString_string, TypeDef.name]) TypeKind.noConfusion

end

/-! ## Declarations -/

def structMembers : TypeDef → List String
  | .composite t =>
    if t.fields = [] then ["empty_"]
    else t.fields.filterMap fun f => (words (member f.name)).head?
  | .fixedArray _ => ["elems"]
  | .variableArray _ => ["length", "elems"]
  | .group t =>
    ["tag"] ++ t.variants.filterMap (fun v => (words (member v.name)).head?) ++ ["data"]
  | _ => []

section
variable {refer : Referrer} {d : TypeDef} {code : Code} {text : String}

theorem NamesType.member?_array (h : NamesType text) (n : Nat) :
    member? s!"{text} elems[{n}];" = some "elems" := by
  rw [h.member?_eq ("elems[" ++ toString n ++ "];") (by simp [toString_string]),
    words_append "elems" '[' (toString n ++ "];") (by decide) (by simp)]
  rfl

/-- The first word of a field's name names its member. -/
theorem filterMap_member?_memberLines {fields : List Field}
    (h : memberLines refer fields = .ok code)
    (hrefer : ∀ f ∈ fields, ∀ text, refer f.typeName = .ok text → NamesType text) :
    (Page.statements code).filterMap member? =
      fields.filterMap fun f => (words (member f.name)).head? := by
  have hlines := mapM_eq_ok_iff.1 h
  clear h
  induction hlines with
  | nil => rfl
  | @cons f step fields code hstep hrest ih =>
    obtain ⟨hf, hfields⟩ := List.forall_mem_cons.1 hrefer
    obtain ⟨text, htext, hend⟩ := except_bind_eq_ok_iff.1 hstep
    cases hend
    have hmember : member? s!"{text} {member f.name};" = (words (member f.name)).head? := by
      rw [(hf text htext).member?_eq (member f.name ++ ";") (by simp [toString_string]),
        words_append (member f.name) ';' "" (by decide) (by simp)]
      exact congrArg List.head? (List.append_nil _)
    show List.filterMap member? (s!"{text} {member f.name};" :: Page.statements code) = _
    rw [List.filterMap_cons, List.filterMap_cons, hmember, ih hfields]

theorem members_groupDeclaration {t : Group} (hname : IsWord t.name)
    (hrefer : ∀ n ∈ (TypeDef.group t).cited, ∀ text, refer n = .ok text → NamesType text)
    (h : groupBuilder.declaration refer (.group t) = .ok code) :
    members code = structMembers (.group t) ∧ tested code = [] := by
  obtain ⟨_, ht, h⟩ := except_bind_eq_ok_iff.1 h
  cases ht
  obtain ⟨tag, htag, h⟩ := except_bind_eq_ok_iff.1 h
  obtain ⟨variants, hvariants, hend⟩ := except_bind_eq_ok_iff.1 h
  cases hend
  refine ⟨?_, rfl⟩
  have htagMember : member? s!"{tag} tag;" = some "tag" := by
    rw [(hrefer t.tagType.name t.tag_mem_cited tag htag).member?_eq "tag;"
      (by simp [toString_string])]
    rfl
  have hlines :
      Page.statements [.line s!"{tag} tag;", Code.blockUntil "\x7d data;" "union" variants] =
        [s!"{tag} tag;", "union \x7b"] ++ Page.statements variants ++ ["\x7d data;"] :=
    congrArg (s!"{tag} tag;" :: "union \x7b" :: ·) (List.append_nil _)
  have hparts : ∀ (first last : CodeStep),
      [first, .blank, last] = [first] ++ ([.blank] ++ [last]) :=
    fun _ _ => rfl
  rw [hparts, members_append, members_append, members_enumBlock, members_structBlock hname, hlines,
    List.filterMap_append, List.filterMap_append, List.filterMap_cons_some htagMember,
    filterMap_member?_memberLines hvariants fun v hv =>
      hrefer v.typeName (t.variants_mem_cited _ (List.mem_map_of_mem hv))]
  rfl

theorem members_declaration (hname : IsWord d.name)
    (hrefer : ∀ n ∈ d.cited, ∀ text, refer n = .ok text → NamesType text)
    (h : (builder d.kind).declaration refer d = .ok code) :
    members code = structMembers d ∧ tested code = [] := by
  cases d with
  | builtin b =>
    cases h
    exact ⟨rfl, rfl⟩
  | scalar t =>
    obtain ⟨_, ht, h⟩ := except_bind_eq_ok_iff.1 h
    cases ht
    obtain ⟨text, htext, hend⟩ := except_bind_eq_ok_iff.1 h
    cases hend
    refine ⟨members_lines _, ?_⟩
    have htested : tested? s!"typedef {text} {t.name};" = none := by
      simp [tested?, wordThen?, List.isPrefixOf?, toString_string]
    show (tested? _).toList ++ [] = _
    rw [htested]
    rfl
  | enumeration t =>
    cases h
    exact ⟨members_enumBlock t.name _, rfl⟩
  | composite t =>
    obtain ⟨_, ht, h⟩ := except_bind_eq_ok_iff.1 h
    cases ht
    obtain ⟨fields, hfields, hend⟩ := except_bind_eq_ok_iff.1 h
    cases hend
    refine ⟨?_, rfl⟩
    rw [members_structBlock (show IsWord t.name from hname), structMembers]
    split
    · rfl
    · refine filterMap_member?_memberLines hfields fun f hf => ?_
      exact hrefer f.typeName (t.fields_mem_cited _ (List.mem_map_of_mem hf))
  | fixedArray t =>
    obtain ⟨_, ht, h⟩ := except_bind_eq_ok_iff.1 h
    cases ht
    obtain ⟨text, htext, hend⟩ := except_bind_eq_ok_iff.1 h
    cases hend
    refine ⟨?_, rfl⟩
    rw [members_structBlock (show IsWord t.name from hname), Page.statements_lines,
      List.filterMap_cons_some
        ((hrefer t.element t.element_mem_cited text htext).member?_array t.count)]
    rfl
  | variableArray t =>
    obtain ⟨_, ht, h⟩ := except_bind_eq_ok_iff.1 h
    cases ht
    obtain ⟨size, hsize, h⟩ := except_bind_eq_ok_iff.1 h
    obtain ⟨text, htext, hend⟩ := except_bind_eq_ok_iff.1 h
    cases hend
    refine ⟨?_, rfl⟩
    have hlength : member? s!"{size} length;" = some "length" := by
      rw [(hrefer t.sizeType.name t.size_mem_cited size hsize).member?_eq "length;"
        (by simp [toString_string])]
      rfl
    rw [members_structBlock (show IsWord t.name from hname), Page.statements_lines,
      List.filterMap_cons_some hlength, List.filterMap_cons_some
        ((hrefer t.element t.element_mem_cited text htext).member?_array t.max)]
    rfl
  | group t => exact members_groupDeclaration hname hrefer h

end

/-! ## Names that meet the guard -/

/-- The enumerators of a type, and the first words of the names of its fields. -/
def entryNames : TypeDef → List String
  | .enumeration t => t.labels.map (constant t.name)
  | .composite t => t.fields.filterMap fun f => (words f.name).head?
  | .group t =>
    t.variants.map (fun v => constant (tagEnum t) v.name) ++
      t.variants.filterMap fun v => (words v.name).head?
  | _ => []

/-- The names of a type, and those made from them, that a guard may meet in a header. -/
def guardRivals (d : TypeDef) : List String :=
  d.name :: ("MAX_ENCODED_LENGTH_" ++ d.name) :: entryNames d

/-- A name is among those that code declares or tests. -/
def Mentions (code : Code) (n : String) : Prop :=
  n ∈ ordinary code ∨ n ∈ tested code ∨ n ∈ tags code ∨ n ∈ members code

/-- A macro is declared and tested once in code and is no tag or member. -/
@[mk_iff]
structure GuardUnique (guard : String) (code : Code) : Prop where
  declared : (ordinary code).count guard = 1
  tested : (tested code).count guard = 1
  tag : guard ∉ tags code
  member : guard ∉ members code

section
variable {project : String}

theorem guardName_ne {n : String} (h : n.toList.getLast? ≠ some 'H') : guardName project ≠ n := by
  rintro rfl
  refine h ?_
  rw [guardName, String.toList_append, List.getLast?_append]
  rfl

theorem isIdentifier_keyword : ∀ k ∈ keywords, Text.isIdentifier k = true ∧
    Text.isIdentifier (k ++ "_") = true ∧ k.toList.getLast? ≠ some 'H' := by
  decide

theorem head?_words_member (n : String) :
    (words (member n)).head? = some (guardName project) ↔
      (words n).head? = some (guardName project) := by
  unfold member Text.escapeKeyword
  split
  · next hkeyword =>
    obtain ⟨hname, hescaped, hlast⟩ := isIdentifier_keyword n hkeyword
    have hlast' : (n ++ "_").toList.getLast? ≠ some 'H' := by simp
    rw [words_of_isIdentifier hname, words_of_isIdentifier hescaped]
    simp [(guardName_ne hlast).symm, (guardName_ne hlast').symm]
  · rfl

theorem mem_filterMap_member {fields : List Field} :
    guardName project ∈ fields.filterMap (fun f => (words (member f.name)).head?) ↔
      guardName project ∈ fields.filterMap fun f => (words f.name).head? := by
  simp only [List.mem_filterMap, head?_words_member]

/-- Names that the target itself gives to members are no guards. -/
theorem guardName_ne_member {n : String} (hn : n ∈ ["empty_", "elems", "length", "tag", "data"]) :
    guardName project ≠ n := by
  have hlast : ∀ n ∈ ["empty_", "elems", "length", "tag", "data"],
      n.toList.getLast? ≠ some 'H' := by
    decide
  exact guardName_ne (hlast n hn)

theorem guardName_mem_compositeMembers {t : Composite} :
    guardName project ∈ structMembers (.composite t) ↔
      guardName project ∈ t.fields.filterMap fun f => (words f.name).head? := by
  rw [structMembers]
  split
  · next hnil =>
    rw [hnil, List.mem_singleton]
    exact iff_of_false (guardName_ne_member (by decide)) List.not_mem_nil
  · exact mem_filterMap_member

theorem guardName_mem_groupMembers {t : Group} :
    guardName project ∈ structMembers (.group t) ↔
      guardName project ∈ t.variants.filterMap fun v => (words v.name).head? := by
  rw [structMembers, List.mem_append, List.mem_append, List.mem_singleton, List.mem_singleton,
    or_iff_left (guardName_ne_member (by decide)), or_iff_right (guardName_ne_member (by decide))]
  exact mem_filterMap_member

/-- Of what the declaration of a type and the macro for its length mention, the guard can be a rival
only. -/
theorem guardName_mem_iff {d : TypeDef} (hkind : d.kind ≠ .builtin) :
    (guardName project ∈ ((ordinaryNames d).drop 3).map MangledName.mangled ∨
        guardName project = "MAX_ENCODED_LENGTH_" ++ d.name ∨
        guardName project ∈ (tagNames d).map MangledName.mangled ∨
        guardName project ∈ structMembers d) ↔
      guardName project ∈ guardRivals d := by
  have hlow : ∀ n ∈ ["empty_", "elems", "length", "tag", "data"], (guardName project = n) = False :=
    fun n hn => eq_false (guardName_ne_member hn)
  have htags : ∀ t : Group, guardName project ≠ tagEnum t :=
    fun t => guardName_ne (by simp [tagEnum])
  have hcomposite := @guardName_mem_compositeMembers project
  have hgroup := @guardName_mem_groupMembers project
  generalize guardName project = g at *
  rw [guardRivals, List.mem_cons, List.mem_cons]
  cases d with
  | builtin b => exact absurd rfl hkind
  | scalar t =>
    show g ∈ [t.name] ∨ g = _ ∨ g ∈ [] ∨ g ∈ [] ↔ g = t.name ∨ g = _ ∨ g ∈ []
    simp only [List.mem_singleton, List.not_mem_nil, or_false]
  | enumeration t =>
    have hlabels : (t.labels.map fun l => MangledName.mk l (constant t.name l)).map
        MangledName.mangled = t.labels.map (constant t.name) := List.map_map
    show g ∈ (t.labels.map fun l => MangledName.mk l (constant t.name l)).map MangledName.mangled ∨
      g = _ ∨ g ∈ [t.name] ∨ g ∈ [] ↔ g = t.name ∨ g = _ ∨ g ∈ t.labels.map (constant t.name)
    rw [hlabels, List.mem_singleton]
    simp only [List.not_mem_nil, or_false]
    rw [or_left_comm, or_comm (b := g = t.name), or_left_comm]
  | composite t =>
    show g ∈ [] ∨ g = _ ∨ g ∈ [t.name] ∨ g ∈ structMembers (.composite t) ↔
      g = t.name ∨ g = _ ∨ g ∈ t.fields.filterMap fun f : Field => (words f.name).head?
    rw [hcomposite, List.mem_singleton]
    simp only [List.not_mem_nil, false_or]
    exact or_left_comm
  | fixedArray t =>
    show g ∈ [] ∨ g = _ ∨ g ∈ [t.name] ∨ g ∈ ["elems"] ↔ g = t.name ∨ g = _ ∨ g ∈ []
    simp only [List.mem_singleton, List.not_mem_nil, hlow "elems" (by decide), false_or, or_false]
    exact or_comm
  | variableArray t =>
    show g ∈ [] ∨ g = _ ∨ g ∈ [t.name] ∨ g ∈ ["length", "elems"] ↔ g = t.name ∨ g = _ ∨ g ∈ []
    simp only [List.mem_cons, List.not_mem_nil, hlow "elems" (by decide),
      hlow "length" (by decide), false_or, or_false]
    exact or_comm
  | group t =>
    have hvariants :
        (t.variants.map fun v => MangledName.mk v.name (constant (tagEnum t) v.name)).map
          MangledName.mangled = t.variants.map fun v => constant (tagEnum t) v.name := List.map_map
    have htag : (g = tagEnum t) = False := eq_false (htags t)
    show g ∈ (t.variants.map fun v => MangledName.mk v.name (constant (tagEnum t) v.name)).map
        MangledName.mangled ∨ g = _ ∨ g ∈ [t.name, tagEnum t] ∨ g ∈ structMembers (.group t) ↔
      g = t.name ∨ g = _ ∨ g ∈ t.variants.map (fun v => constant (tagEnum t) v.name) ++
        t.variants.filterMap fun v : Field => (words v.name).head?
    rw [hvariants, hgroup, List.mem_append]
    simp only [List.mem_cons, List.not_mem_nil, htag, or_false]
    rw [or_left_comm, or_left_comm (b := g = t.name), or_left_comm]

end

/-! ## Headers -/

section
variable {ctx : RenderContext} {sections : List Section}

theorem tested_prelude : tested prelude = ["WIRE_PRELUDE_H"] := by
  rfl

theorem members_prelude :
    members prelude = ["data", "capacity", "used", "data", "len", "pos"] := by
  rfl

theorem tested_nil : tested [] = [] := rfl

theorem tested_cons (step : CodeStep) (code : Code) :
    tested (step :: code) = stepTested step ++ tested code :=
  List.flatMap_cons

theorem stepTested_eq_nil {first : String} {c e : Char} (rest : String)
    (h : [c, e] <+: first.toList) (he : c ≠ '#' ∨ e ≠ 'i') :
    stepTested (.line (first ++ rest)) = [] := by
  obtain ⟨cs, hcs⟩ := h
  have htested : tested? (first ++ rest) = none := by
    rcases he with hc | he
    · simp [tested?, wordThen?, ← hcs, List.isPrefixOf?, hc.symm]
    · simp [tested?, wordThen?, ← hcs, List.isPrefixOf?, he.symm]
  rw [stepTested, htested]
  rfl

theorem stepTested_guard {project : String} (h : Text.isIdentifier project = true) :
    stepTested (.line s!"#ifndef {guardName project}") = [guardName project] := by
  have htested : tested? s!"#ifndef {guardName project}" = some (guardName project) := by
    rw [tested?, wordThen?_eq [] (isWord_guardName h) (by simp) (by simp [toString_string])]
    rfl
  rw [stepTested, htested]
  rfl

theorem tested_header (h : Text.isIdentifier ctx.project = true) :
    tested (header ctx sections) = guardName ctx.project :: (tested prelude ++
      sections.flatMap fun code => tested code.declaration) := by
  have hbanner : stepTested (.line (banner ctx.schema)) = [] := by
    obtain ⟨rest, htext⟩ := exists_banner_eq ctx.schema
    rw [htext]
    exact stepTested_eq_nil (c := '/') (e := '*') _ (by decide) (by decide)
  have hdefine : stepTested (.line s!"#define {guardName ctx.project}") = [] :=
    stepTested_eq_nil (c := '#') (e := 'd') _ (by decide) (by decide)
  have hclose : stepTested (.line s!"#endif /* {guardName ctx.project} */") = [] := by
    simp only [toString_string, String.append_assoc]
    exact stepTested_eq_nil (c := '#') (e := 'e') _ (by decide) (by decide)
  have hfront : tested (Code.lines [banner ctx.schema, s!"#ifndef {guardName ctx.project}",
      s!"#define {guardName ctx.project}"]) = [guardName ctx.project] := by
    simp only [Code.lines, List.map_cons, List.map_nil, tested_cons, tested_nil, hbanner, hdefine,
      stepTested_guard h, List.nil_append, List.append_nil]
  have hincludes : tested (Code.lines ["#include <stddef.h>", "#include <stdint.h>"]) = [] := rfl
  have hend : tested [.blank, .append unit (sections.flatMap Section.prototypes), .blank,
      .line s!"#endif /* {guardName ctx.project} */"] = [] := by
    simp only [tested_cons, tested_nil, hclose]
    rfl
  have hblank : tested [.blank] = [] := rfl
  rw [header]
  simp only [tested_append, hfront, hincludes, hend, hblank, tested_flatMap, List.append_nil,
    List.cons_append, List.nil_append]

theorem members_header :
    members (header ctx sections) = members prelude ++
      sections.flatMap fun code => members code.declaration := by
  unfold header
  simp only [members_append, members_lines, members_flatMap]
  exact List.append_nil _

end

section
variable {n : String}

theorem mentions_append {front back : Code} :
    Mentions (front ++ back) n ↔ Mentions front n ∨ Mentions back n := by
  unfold Mentions
  rw [ordinary_append, tested_append, tags_append, members_append]
  simp only [List.mem_append, or_assoc, or_left_comm]

theorem not_mentions_blank : ¬ Mentions [.blank] n := by
  show ¬ (n ∈ [] ∨ n ∈ [] ∨ n ∈ [] ∨ n ∈ [])
  simp only [List.not_mem_nil, or_self, not_false_eq_true]

theorem mentions_bound {name : String} (hname : IsWord name) {length : Nat} :
    Mentions (Code.lines [s!"#define MAX_ENCODED_LENGTH_{name} ({length})"]) n ↔
      n = "MAX_ENCODED_LENGTH_" ++ name := by
  have htested : stepTested (.line s!"#define MAX_ENCODED_LENGTH_{name} ({length})") = [] := by
    simp only [toString_string, String.append_assoc]
    exact stepTested_eq_nil (c := '#') (e := 'd') _ (by decide) (by decide)
  unfold Mentions
  rw [ordinary_bound hname, tags_lines, members_lines, Code.lines, List.map_singleton, tested_cons,
    htested, tested_nil]
  simp only [List.mem_singleton, List.not_mem_nil, List.append_nil, or_false]

end

section
variable {ctx : RenderContext} {sections : List Section} {d : TypeDef} {code : Section}
variable (project : String)

theorem mentions_section_iff (h : ctx.Renders backend) (hd : d ∈ ctx.schema.definitions)
    (hnames : ∀ d ∈ ctx.schema.definitions, Text.isIdentifier d.name = true)
    (hfree : ∀ d ∈ ctx.schema.definitions, d.kind ≠ .builtin → d.name ∉ typeWords)
    (hcode : renderSection ctx d = .ok code) :
    Mentions code.declaration (guardName project) ↔
      d.kind ≠ .builtin ∧ guardName project ∈ guardRivals d := by
  obtain ⟨declaration, pack, unpack, bounds, prototypes, hdeclaration, -, -, rfl, hparts⟩ :=
    renderSection_eq_ok hcode
  rw [h.declaration_eq] at hdeclaration
  have hname : IsWord d.name := fun _ => Text.isIdentifierRest_of_mem (hnames d hd)
  have hrefer : ∀ n ∈ d.cited, ∀ text, ctx.reference n = .ok text → NamesType text := by
    intro n hn text htext
    obtain ⟨e, he, rfl⟩ := List.mem_map.1 (h.consistent.cited_mem_names hd n hn)
    rw [h.reference_eq he] at htext
    exact namesType_reference (hnames e he) (hfree e he) htext
  have hdeclares := declares_declaration hname (reference_builtin h) hdeclaration
  obtain ⟨hmembers, htested⟩ := members_declaration hname hrefer hdeclaration
  have hdeclaration : Mentions declaration (guardName project) ↔
      guardName project ∈ ((ordinaryNames d).drop 3).map MangledName.mangled ∨
        guardName project ∈ (tagNames d).map MangledName.mangled ∨
        guardName project ∈ structMembers d := by
    unfold Mentions
    rw [hdeclares.ordinary, htested, hdeclares.tags.mem_iff, hmembers]
    simp only [List.not_mem_nil, false_or]
  rw [mentions_append, mentions_append, hdeclaration, or_iff_right not_mentions_blank]
  rcases hparts with ⟨hkind, rfl, -⟩ | ⟨hkind, rfl, -⟩
  · cases d with
    | builtin b =>
      refine iff_of_false ?_ fun h => h.1 rfl
      show ¬ ((_ ∈ [] ∨ _ ∈ [] ∨ _ ∈ []) ∨ _ ∈ [] ∨ _ ∈ [] ∨ _ ∈ [] ∨ _ ∈ [])
      simp only [List.not_mem_nil, or_self, not_false_eq_true]
    | _ => cases hkind
  · rw [mentions_bound hname, and_iff_right hkind, ← guardName_mem_iff hkind, or_right_comm,
      or_assoc]

theorem mentions_prelude_iff :
    Mentions prelude (guardName project) ↔ Text.toUppercase project = "WIRE_PRELUDE" := by
  have hguard : guardName project = "WIRE_PRELUDE_H" ↔
      Text.toUppercase project = "WIRE_PRELUDE" := by
    show Text.toUppercase project ++ "_H" = "WIRE_PRELUDE" ++ "_H" ↔ _
    exact String.append_left_inj "_H"
  have hsuffix : "_H".toList <:+ (guardName project).toList :=
    ⟨(Text.toUppercase project).toList, (String.toList_append).symm⟩
  have hnames : ∀ n ∈ ordinary prelude ++ tested prelude ++ tags prelude ++ members prelude,
      "_H".toList <:+ n.toList → n = "WIRE_PRELUDE_H" := by
    rw [ordinary_prelude, tested_prelude, tags_prelude, members_prelude]
    decide
  rw [← hguard]
  refine ⟨fun h => hnames _ ?_ hsuffix, fun h => .inr (.inl ?_)⟩
  · rw [List.mem_append, List.mem_append, List.mem_append, or_assoc, or_assoc]
    exact h
  · rw [tested_prelude, h]
    exact List.mem_singleton_self _

theorem mentions_sections_iff
    (hrendered : List.Forall₂ (fun d code => renderSection ctx d = .ok code) ctx.schema.ordered
      sections)
    (h : ctx.Renders backend)
    (hnames : ∀ d ∈ ctx.schema.definitions, Text.isIdentifier d.name = true)
    (hfree : ∀ d ∈ ctx.schema.definitions, d.kind ≠ .builtin → d.name ∉ typeWords) :
    (∃ code ∈ sections, Mentions code.declaration (guardName project)) ↔
      ∃ d ∈ ctx.schema.definitions, d.kind ≠ .builtin ∧ guardName project ∈ guardRivals d := by
  have hlisted : ∀ d, d ∈ ctx.schema.ordered ↔ d ∈ ctx.schema.definitions :=
    fun d => h.consistent.listed.mem_iff
  have hsome : (∃ code ∈ sections, Mentions code.declaration (guardName project)) ↔
      ∃ d ∈ ctx.schema.ordered, d.kind ≠ .builtin ∧ guardName project ∈ guardRivals d := by
    have hmem : ∀ d ∈ ctx.schema.ordered, d ∈ ctx.schema.definitions := fun d => (hlisted d).1
    generalize ctx.schema.ordered = ds at hmem hrendered
    induction hrendered with
    | nil => simp
    | cons hcode _ ih =>
      obtain ⟨hd, hds⟩ := List.forall_mem_cons.1 hmem
      rw [List.exists_mem_cons_iff, List.exists_mem_cons_iff]
      exact or_congr (mentions_section_iff project h hd hnames hfree hcode) (ih hds)
  simp only [hsome, hlisted]

/-- A header mentions its guard where it opens; what else it mentions is up to the prelude and the
sections. -/
theorem guardUnique_header_iff (ctx : RenderContext)
    (hproject : Text.isIdentifier ctx.project = true) :
    GuardUnique (guardName ctx.project) (header ctx sections) ↔
      ¬ (Mentions prelude (guardName ctx.project) ∨
        ∃ code ∈ sections, Mentions code.declaration (guardName ctx.project)) := by
  have hcount : ∀ rest : List String,
      (guardName ctx.project :: rest).count (guardName ctx.project) = 1 ↔
        guardName ctx.project ∉ rest := by
    intro rest
    rw [List.count_cons_self, Nat.add_eq_right, List.count_eq_zero]
  rw [guardUnique_iff, ordinary_header hproject, tested_header hproject, tags_header,
    members_header, hcount, hcount, ← not_or, ← not_or, ← not_or]
  unfold Mentions
  simp only [List.mem_append, List.mem_flatMap, and_or_left, exists_or, or_assoc, or_left_comm]

theorem mem_declared_of_kind {s : Schema} (hd : d ∈ s.definitions) (hkind : d.kind ≠ .builtin) :
    d ∈ s.declared := by
  refine (List.mem_append.1 hd).resolve_left fun hbuiltin => ?_
  obtain ⟨b, rfl⟩ := Schema.mem_builtins.1 hbuiltin
  exact hkind rfl

/-- The check keeps the words that types begin with from types. -/
theorem not_mem_typeWords (hcheck : check ctx = .ok ()) (hd : d ∈ ctx.schema.definitions)
    (hkind : d.kind ≠ .builtin) : d.name ∉ typeWords := by
  have hd := mem_declared_of_kind hd hkind
  obtain ⟨-, ⟨htags, -⟩, hordinary, -⟩ := check_eq_ok_iff.1 hcheck
  have hkeywords : ∀ n ∈ typeWords, n ∈ keywords ++ preludeNames := by decide
  intro hname
  have htag : ⟨d.name, d.name⟩ ∈ tagNames d → False := fun hmem =>
    htags _ (List.mem_flatMap.2 ⟨d, hd, hmem⟩) (hkeywords _ hname)
  cases d with
  | builtin b => exact hkind rfl
  | scalar t =>
    have hmem : ⟨t.name, t.name⟩ ∈ ordinaryNames (.scalar t) :=
      List.mem_append_right _ List.mem_cons_self
    exact hordinary _ (List.mem_flatMap.2 ⟨_, hd, hmem⟩) (hkeywords _ hname)
  | _ => exact htag List.mem_cons_self

end

section
variable {name version : String} {declared : List TypeDef} {s : Schema} {r : Registry}
  {project : String} {files : List GeneratedFile}

/-- What meets the guard of a generated header comes from the name of the project and the declared
types. -/
theorem exists_mentions_iff (hs : Schema.build name version declared = .ok s)
    (hoffers : r.Offers backend) (hfiles : r.generate s language project = .ok files) :
    ∃ sections, FilesOf (r.context language project s) sections files ∧
      ((Mentions prelude (guardName project) ∨
          ∃ code ∈ sections, Mentions code.declaration (guardName project)) ↔
        Text.toUppercase project = "WIRE_PRELUDE" ∨
          ∃ d ∈ declared, guardName project ∈ guardRivals d) := by
  obtain ⟨-, hcheck, hemit⟩ := hoffers.generate_eq_ok_iff.1 hfiles
  obtain ⟨-, -, hcoherent, -, rfl, -⟩ := Schema.build_eq_ok_iff.1 hs
  obtain ⟨sections, hsections⟩ := exists_filesOf hemit
  have hrenders :=
    hoffers.renders_context List.mem_cons_self (Schema.consistent_of_build hs) project
  have hnames : ∀ d ∈ s.definitions, Text.isIdentifier d.name = true :=
    fun d hd => Schema.isIdentifier_of_mem_names hs (List.mem_map_of_mem hd)
  have hfree : ∀ d ∈ s.definitions, d.kind ≠ .builtin → d.name ∉ typeWords :=
    fun d => not_mem_typeWords hcheck
  have htypes := mentions_sections_iff project hsections.rendered hrenders hnames hfree
  refine ⟨sections, hsections, or_congr (mentions_prelude_iff project) (htypes.trans ?_)⟩
  refine exists_congr fun d => ⟨?_, ?_⟩
  · rintro ⟨hd, hkind, hmem⟩
    exact ⟨mem_declared_of_kind hd hkind, hmem⟩
  · rintro ⟨hd, hmem⟩
    exact ⟨List.mem_append_right _ hd, hcoherent.declarable d hd, hmem⟩

/-- A project whose guard meets another name is generated all the same. -/
theorem exists_not_guardUnique (hs : Schema.build name version declared = .ok s)
    (hoffers : r.Offers backend) (hproject : Text.isIdentifier project = true)
    (hcheck : check (r.context language project s) = .ok ())
    (hrival : Text.toUppercase project = "WIRE_PRELUDE" ∨
      ∃ d ∈ declared, guardName project ∈ guardRivals d) :
    ∃ files sections, r.generate s language project = .ok files ∧
      FilesOf (r.context language project s) sections files ∧
      ¬ GuardUnique (guardName project) (header (r.context language project s) sections) := by
  obtain ⟨files, hfiles⟩ := hoffers.exists_generate List.mem_cons_self
    (Schema.consistent_of_build hs) hproject hcheck
  obtain ⟨sections, hsections, hmentions⟩ := exists_mentions_iff hs hoffers hfiles
  refine ⟨files, sections, hfiles, hsections, fun hunique => ?_⟩
  exact (guardUnique_header_iff (r.context language project s) hproject).1 hunique
    (hmentions.2 hrival)

/-- The macro that guards a header is no other name that the header declares or tests exactly if it
is not the one that guards the prelude, no type has its name or the name that its length or one of
its enumerators makes from it, and no field or variant has its name.  Labels, fields and variants
need not be identifiers here: an enumerator is read as one name whatever its label is, and a member
by the first word of its field or variant. -/
theorem guard_unique_iff (hs : Schema.build name version declared = .ok s) :
    ∃ r, Registry.withBackends = .ok r ∧ ∀ project files,
      r.generate s language project = .ok files →
      ∃ sections, FilesOf (r.context language project s) sections files ∧
        (GuardUnique (guardName project) (header (r.context language project s) sections) ↔
          Text.toUppercase project ≠ "WIRE_PRELUDE" ∧
            ∀ d ∈ declared, guardName project ∉ guardRivals d) := by
  obtain ⟨r, hr, hoffers⟩ := Registry.exists_withBackends
  refine ⟨r, hr, ?_⟩
  intro project files hfiles
  have hc := hoffers backend List.mem_cons_self
  obtain ⟨hproject, -, -⟩ := hc.generate_eq_ok_iff.1 hfiles
  obtain ⟨sections, hsections, hmentions⟩ := exists_mentions_iff hs hc hfiles
  refine ⟨sections, hsections, ?_⟩
  have hunique : GuardUnique (guardName project) (header (r.context language project s) sections) ↔
      ¬ (Mentions prelude (guardName project) ∨
        ∃ code ∈ sections, Mentions code.declaration (guardName project)) :=
    guardUnique_header_iff (r.context language project s) hproject
  rw [hunique, hmentions, not_or]
  simp only [not_exists, not_and, ne_eq]

open Sample

theorem guard_unique_pairs :
    ∃ s, Schema.build "pairs" "1.0.0" Pairs.definitions = .ok s ∧
      ∃ r, Registry.withBackends = .ok r ∧ ∃ files, r.generate s language "demo" = .ok files ∧
        ∃ sections, FilesOf (r.context language "demo" s) sections files ∧
          GuardUnique "DEMO_H" (header (r.context language "demo" s) sections) := by
  obtain ⟨s, hs⟩ := Pairs.exists_build
  obtain ⟨-, -, -, -, hdeclared, -⟩ := Schema.build_eq_ok_iff.1 hs
  obtain ⟨r, hr, h⟩ := guard_unique_iff hs
  obtain ⟨_, hr', hoffers⟩ := Registry.exists_withBackends
  cases hr.symm.trans hr'
  have hproject : Text.isIdentifier "demo" = true := rfl
  obtain ⟨files, hfiles⟩ := (hoffers backend List.mem_cons_self).exists_generate List.mem_cons_self
    (Schema.consistent_of_build hs) hproject (Registry.check_pairs hdeclared)
  obtain ⟨sections, hsections, hunique⟩ := h "demo" files hfiles
  have hguard : guardName "demo" = "DEMO_H" := rfl
  rw [hguard] at hunique
  exact ⟨s, hs, r, hr, files, hfiles, sections, hsections, hunique.2 ⟨by decide, by decide⟩⟩

def homonyms : List TypeDef :=
  [.enumeration ⟨"demo", ["h"], List.cons_ne_nil _ _, List.nodup_singleton _,
    Nat.le_of_ble_eq_true rfl⟩]

/-- In a project of the name `demo` the guard is an enumerator, and in one of the name
`wire_prelude` it is the guard of the prelude. -/
theorem exists_guard_rival :
    ∃ r, Registry.withBackends = .ok r ∧
      (∃ s files sections, Schema.build "s" "1.0.0" homonyms = .ok s ∧
        r.generate s language "demo" = .ok files ∧
        FilesOf (r.context language "demo" s) sections files ∧
        ¬ GuardUnique "DEMO_H" (header (r.context language "demo" s) sections)) ∧
      ∃ s files sections, Schema.build "s" "1.0.0" [] = .ok s ∧
        r.generate s language "wire_prelude" = .ok files ∧
        FilesOf (r.context language "wire_prelude" s) sections files ∧
        ¬ GuardUnique "WIRE_PRELUDE_H" (header (r.context language "wire_prelude" s) sections) := by
  obtain ⟨r, hr, hoffers⟩ := Registry.exists_withBackends
  have hc := hoffers backend List.mem_cons_self
  refine ⟨r, hr, ?_, ?_⟩
  · have hrun : (Schema.build "s" "1.0.0" homonyms).map Schema.name = .ok "s" := by rfl
    obtain ⟨s, hs, -⟩ := exists_of_map_eq_ok hrun
    obtain ⟨-, -, -, -, hdeclared, -⟩ := Schema.build_eq_ok_iff.1 hs
    have hcheck : check (r.context language "demo" s) = .ok () := by
      refine check_eq_ok_iff.2 ?_
      rw [show (r.context language "demo" s).schema.declared = homonyms from hdeclared]
      exact ⟨List.forall_mem_cons.2 ⟨rfl, by simp⟩, by decide, by decide⟩
    have hrival : ∃ d ∈ homonyms, guardName "demo" ∈ guardRivals d :=
      ⟨_, List.mem_cons_self, by decide⟩
    obtain ⟨files, sections, hfiles, hsections, hnot⟩ :=
      exists_not_guardUnique hs hc rfl hcheck (.inr hrival)
    exact ⟨s, files, sections, hs, hfiles, hsections, hnot⟩
  · have hrun : (Schema.build "s" "1.0.0" []).map Schema.name = .ok "s" := by rfl
    obtain ⟨s, hs, -⟩ := exists_of_map_eq_ok hrun
    obtain ⟨-, -, -, -, hdeclared, -⟩ := Schema.build_eq_ok_iff.1 hs
    have hcheck : check (r.context language "wire_prelude" s) = .ok () := by
      refine check_eq_ok_iff.2 ?_
      rw [show (r.context language "wire_prelude" s).schema.declared = [] from hdeclared]
      exact ⟨by simp, by decide, by decide⟩
    obtain ⟨files, sections, hfiles, hsections, hnot⟩ :=
      exists_not_guardUnique hs hc rfl hcheck (.inl rfl)
    exact ⟨s, files, sections, hs, hfiles, hsections, hnot⟩

end
end WireCodec.Target.C
