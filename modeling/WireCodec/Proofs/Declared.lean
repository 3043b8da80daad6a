import WireCodec.Proofs.Placing

/-!
# Names declared by C code

What C code declares at file scope can be read off the code: the names of typedefs, macros,
functions and enumerators, and the tags of structs and enums.

* `Target.C.wordThen?`           the word between two texts;
* `Target.C.ordinary code`       typedefs, macros, functions and enumerators that code declares;
* `Target.C.tags code`           struct and enum tags;
* `Target.C.announced code`      functions that prototypes announce;
* `Target.C.Shows`               what the section of a type declares.
-/

namespace WireCodec

/-! ## Identifiers -/

namespace Text

theorem toNat_lt_of_isIdentifierRest {c : Char} (h : isIdentifierRest c = true) :
    c.toNat < 128 := by
  have hle : ∀ d : Char, decide (c.val ≤ d.val) = true → d.toNat < 128 → c.toNat < 128 :=
    fun d hd hlt => Nat.lt_of_le_of_lt (UInt32.le_iff_toNat_le.1 (of_decide_eq_true hd)) hlt
  rcases Bool.or_eq_true_iff.1 h with halphanum | hunderscore
  · rcases Bool.or_eq_true_iff.1 halphanum with halpha | hdigit
    · rcases Bool.or_eq_true_iff.1 halpha with hupper | hlower
      · exact hle 'Z' (decide_eq_true (of_decide_eq_true hupper).2) (by decide)
      · exact hle 'z' (Bool.and_eq_true_iff.1 hlower).2 (by decide)
    · exact hle '9' (Bool.and_eq_true_iff.1 hdigit).2 (by decide)
  · rw [eq_of_beq hunderscore]
    decide

/-- The upper case of a character of an identifier is one too, and neither `p` nor `u`. -/
theorem toUpper_of_isIdentifierRest {c : Char} (h : isIdentifierRest c = true) :
    isIdentifierRest c.toUpper = true ∧ c.toUpper ≠ 'p' ∧ c.toUpper ≠ 'u' := by
  have hall : ∀ n < 128, isIdentifierRest (Char.ofNat n) = true →
      isIdentifierRest (Char.ofNat n).toUpper = true ∧ (Char.ofNat n).toUpper ≠ 'p' ∧
        (Char.ofNat n).toUpper ≠ 'u' := by
    decide
  have hc := hall c.toNat (toNat_lt_of_isIdentifierRest h)
  rw [Char.ofNat_toNat] at hc
  exact hc h

theorem upperChar_of_isIdentifierRest {c : Char} (h : isIdentifierRest c = true) :
    upperChar c = [c.toUpper] :=
  if_pos (toNat_lt_of_isIdentifierRest h)

end Text

namespace Target.C

/-! ## Words -/

/-- The word behind `head`, if `next` follows it. -/
def wordThen? (head next text : String) : Option String := do
  let rest ← head.toList.isPrefixOf? text.toList
  let _ ← next.toList.isPrefixOf? (rest.dropWhile Text.isIdentifierRest)
  return String.ofList (rest.takeWhile Text.isIdentifierRest)

/-- Characters that may stand in an identifier. -/
def IsWord (w : String) : Prop := ∀ c ∈ w.toList, Text.isIdentifierRest c = true

section
variable {head next text w : String}

theorem IsWord.append {w' : String} (h : IsWord w) (h' : IsWord w') : IsWord (w ++ w') := by
  intro c hc
  rw [String.toList_append] at hc
  exact (List.mem_append.1 hc).elim (h c) (h' c)

theorem IsWord.toUppercase (h : IsWord w) : IsWord (Text.toUppercase w) := by
  intro c hc
  rw [Text.toUppercase, String.toList_ofList] at hc
  obtain ⟨a, ha, hc⟩ := List.mem_flatMap.1 hc
  rw [Text.upperChar_of_isIdentifierRest (h a ha)] at hc
  rw [List.mem_singleton.1 hc]
  exact (Text.toUpper_of_isIdentifierRest (h a ha)).1

/-- Where the word ends is where no further character belongs to it. -/
theorem wordThen?_eq (tail : List Char) (hw : IsWord w)
    (htail : ∀ c ∈ tail.head?, Text.isIdentifierRest c = false)
    (htext : text.toList = head.toList ++ (w.toList ++ tail)) :
    wordThen? head next text = (next.toList.isPrefixOf? tail).map fun _ => w := by
  have hrest : head.toList.isPrefixOf? text.toList = some (w.toList ++ tail) :=
    List.isPrefixOf?_eq_some_iff_append_eq.2 htext.symm
  have hdrop : (w.toList ++ tail).dropWhile Text.isIdentifierRest = tail := by
    rw [List.dropWhile_append_of_pos hw]
    cases tail with
    | nil => rfl
    | cons c tail => exact List.dropWhile_cons_of_neg (by simp [htail c rfl])
  have htake : (w.toList ++ tail).takeWhile Text.isIdentifierRest = w.toList := by
    rw [List.takeWhile_append_of_pos hw]
    cases tail with
    | nil => exact List.append_nil _
    | cons c tail =>
      rw [List.takeWhile_cons_of_neg (by simp [htail c rfl]), List.append_nil]
  simp only [wordThen?, hrest, hdrop, htake, Option.bind_eq_bind, Option.bind_some,
    String.ofList_toList]
  cases next.toList.isPrefixOf? tail <;> rfl

/-- What has to follow the word does not occur at all. -/
theorem wordThen?_eq_none {c : Char} (hnext : c ∈ next.toList) (htext : c ∉ text.toList) :
    wordThen? head next text = none := by
  cases h : wordThen? head next text with
  | none => rfl
  | some w =>
    simp only [wordThen?, Option.bind_eq_bind, Option.bind_eq_some_iff] at h
    obtain ⟨rest, hrest, more, hmore, -⟩ := h
    rw [List.isPrefixOf?_eq_some_iff_append_eq] at hrest hmore
    have hmem : c ∈ rest.dropWhile Text.isIdentifierRest := by
      rw [← hmore]
      exact List.mem_append_left more hnext
    refine absurd ?_ htext
    rw [← hrest]
    exact List.mem_append_right _ ((List.dropWhile_sublist _).subset hmem)

end

/-! ## Names of a step -/

def typedef? (text : String) : Option String := do
  let rest ← "typedef ".toList.isPrefixOf? text.toList
  wordThen? " " ";" (String.ofList (rest.dropWhile Text.isIdentifierRest))

def defined? (text : String) : Option String :=
  wordThen? "#define " "" text

/-- The name of a function, from its prototype or the head of its definition. -/
def routine? (text : String) : Option String :=
  (wordThen? "enum wire_status " "(" text).or (wordThen? "static inline enum wire_status " "(" text)

def enumTag? (opening : String) : Option String :=
  wordThen? "enum " " \x7b" opening

def structTag? (opening : String) : Option String :=
  wordThen? "struct " " \x7b" opening

/-- The name in a line of an enum, which ends with a comma and may have a number in front of it.
Whatever stands in front of the number is read as one name, even if it is none. -/
def enumerator (text : String) : String :=
  let back := text.toList.reverse.tail
  String.ofList ((" = ".toList.reverse.isPrefixOf? (back.dropWhile Char.isDigit)).getD back).reverse

/-- The typedefs, macros, functions and enumerators that a step at file scope declares. -/
def stepOrdinary : CodeStep → List String
  | .line text => (typedef? text).toList ++ (defined? text).toList
  | .braces opening _ body =>
    (routine? opening).toList ++
      if (enumTag? opening).isSome then (Page.statements body).map enumerator else []
  | _ => []

def stepTags : CodeStep → List String
  | .braces opening _ _ => (enumTag? opening).toList ++ (structTag? opening).toList
  | _ => []

def ordinary (code : Code) : List String := code.flatMap stepOrdinary

def tags (code : Code) : List String := code.flatMap stepTags

def announced (prototypes : Code) : List String := (Page.statements prototypes).filterMap routine?

theorem ordinary_append (front back : Code) :
    ordinary (front ++ back) = ordinary front ++ ordinary back :=
  List.flatMap_append

theorem tags_append (front back : Code) : tags (front ++ back) = tags front ++ tags back :=
  List.flatMap_append

theorem ordinary_line (text : String) :
    ordinary (Code.lines [text]) = (typedef? text).toList ++ (defined? text).toList :=
  List.append_nil _

theorem tags_lines (texts : List String) : tags (Code.lines texts) = [] := by
  induction texts with
  | nil => rfl
  | cons text texts ih => exact ih

section
variable {refer : Referrer} {d : TypeDef} {head name : String} {body code : Code}

/-! ## Declarations -/

theorem enumerator_numbered (name : String) (i : Nat) : enumerator s!"{name} = {i}," = name := by
  have hdigits : ∀ c ∈ (toString i).toList.reverse, c.isDigit = true := by
    intro c hc
    rw [List.mem_reverse, Nat.toString_eq_repr, Nat.toList_repr] at hc
    exact Nat.isDigit_of_mem_toDigits (by decide) (by decide) hc
  have hback : s!"{name} = {i},".toList.reverse.tail =
      (toString i).toList.reverse ++ (" = ".toList.reverse ++ name.toList.reverse) := by
    simp [toString_string]
  have hname : " = ".toList.reverse.isPrefixOf?
      ((" = ".toList.reverse ++ name.toList.reverse).dropWhile Char.isDigit) =
      some name.toList.reverse := by
    rw [List.isPrefixOf?_eq_some_iff_append_eq]
    rfl
  rw [enumerator, hback, List.dropWhile_append_of_pos hdigits, hname, Option.getD_some,
    List.reverse_reverse, String.ofList_toList]

theorem not_mem_of_isWord {c : Char} (hname : IsWord name) (hc : Text.isIdentifierRest c = false) :
    c ∉ name.toList := by
  intro hmem
  rw [hname c hmem] at hc
  cases hc

theorem enumTag?_enum (hname : IsWord name) :
    enumTag? (s!"enum {name}" ++ " \x7b") = some name := by
  rw [enumTag?, wordThen?_eq " \x7b".toList hname (by simp; decide) (by simp [toString_string])]
  rfl

theorem structTag?_enum (name : String) : structTag? (s!"enum {name}" ++ " \x7b") = none := by
  simp [structTag?, wordThen?, List.isPrefixOf?, toString_string]

theorem enumTag?_struct (name : String) : enumTag? (s!"struct {name}" ++ " \x7b") = none := by
  simp [enumTag?, wordThen?, List.isPrefixOf?, toString_string]

theorem structTag?_struct (hname : IsWord name) :
    structTag? (s!"struct {name}" ++ " \x7b") = some name := by
  rw [structTag?, wordThen?_eq " \x7b".toList hname (by simp; decide) (by simp [toString_string])]
  rfl

theorem ordinary_enumBlock (hname : IsWord name) (body : Code) :
    ordinary [Code.blockUntil "\x7d;" s!"enum {name}" body] =
      (Page.statements body).map enumerator := by
  have hparen : '(' ∉ (s!"enum {name}" ++ " \x7b").toList := by
    simpa [toString_string] using not_mem_of_isWord hname (c := '(') (by decide)
  have hroutine : routine? (s!"enum {name}" ++ " \x7b") = none := by
    rw [routine?, wordThen?_eq_none (c := '(') (by decide) hparen,
      wordThen?_eq_none (c := '(') (by decide) hparen]
    rfl
  simp [ordinary, stepOrdinary, Code.blockUntil, hroutine, enumTag?_enum hname]

theorem tags_enumBlock (hname : IsWord name) (body : Code) :
    tags [Code.blockUntil "\x7d;" s!"enum {name}" body] = [name] := by
  simp [tags, stepTags, Code.blockUntil, enumTag?_enum hname, structTag?_enum]

theorem ordinary_structBlock (name : String) (body : Code) :
    ordinary [Code.blockUntil "\x7d;" s!"struct {name}" body] = [] := by
  have hroutine : routine? (s!"struct {name}" ++ " \x7b") = none := by
    simp [routine?, wordThen?, List.isPrefixOf?, toString_string]
  simp [ordinary, stepOrdinary, Code.blockUntil, hroutine, enumTag?_struct]

theorem tags_structBlock (hname : IsWord name) (body : Code) :
    tags [Code.blockUntil "\x7d;" s!"struct {name}" body] = [name] := by
  simp [tags, stepTags, Code.blockUntil, enumTag?_struct, structTag?_struct hname]

theorem map_enumerator_enumerators (typeName : String) (names : List String) :
    (Page.statements (enumerators typeName names)).map enumerator =
      names.map (constant typeName) := by
  have hlines : enumerators typeName names =
      Code.lines (names.zipIdx.map fun x => s!"{constant typeName x.1} = {x.2},") := by
    rw [enumerators, Code.lines, List.map_map]
    rfl
  rw [hlines, Page.statements_lines, List.map_map]
  calc names.zipIdx.map (enumerator ∘ fun x => s!"{constant typeName x.1} = {x.2},")
      = names.zipIdx.map (constant typeName ∘ Prod.fst) :=
        List.map_congr_left fun x _ => enumerator_numbered (constant typeName x.1) x.2
    _ = names.map (constant typeName) := by rw [← List.map_map, List.zipIdx_map_fst]

theorem typedef?_primitive (b : Builtin) (hname : IsWord name) :
    typedef? s!"typedef {primitive b} {name};" = some name := by
  have hb : IsWord (primitive b) := by cases b <;> exact List.all_eq_true.1 rfl
  have htext : s!"typedef {primitive b} {name};".toList =
      "typedef ".toList ++ ((primitive b).toList ++ ' ' :: (name.toList ++ [';'])) := by
    simp [toString_string]
  have hrest : ((primitive b).toList ++ ' ' :: (name.toList ++ [';'])).dropWhile
      Text.isIdentifierRest = ' ' :: (name.toList ++ [';']) := by
    rw [List.dropWhile_append_of_pos hb, List.dropWhile_cons_of_neg (by decide)]
  rw [typedef?, List.isPrefixOf?_eq_some_iff_append_eq.2 htext.symm, Option.bind_eq_bind,
    Option.bind_some, hrest, wordThen?_eq [';'] hname (by simp; decide) (by simp)]
  rfl

theorem ordinary_typedef (b : Builtin) (hname : IsWord name) :
    ordinary (Code.lines [s!"typedef {primitive b} {name};"]) = [name] := by
  have hdefined : defined? s!"typedef {primitive b} {name};" = none := by
    simp [defined?, wordThen?, List.isPrefixOf?, toString_string]
  rw [ordinary_line, typedef?_primitive b hname, hdefined]
  rfl

theorem ordinary_bound (hname : IsWord name) (n : Nat) :
    ordinary (Code.lines [s!"#define MAX_ENCODED_LENGTH_{name} ({n})"]) =
      ["MAX_ENCODED_LENGTH_" ++ name] := by
  have htypedef : typedef? s!"#define MAX_ENCODED_LENGTH_{name} ({n})" = none := by
    simp [typedef?, List.isPrefixOf?, toString_string]
  have hword : IsWord ("MAX_ENCODED_LENGTH_" ++ name) :=
    IsWord.append (List.all_eq_true.1 rfl) hname
  have hdefined : defined? s!"#define MAX_ENCODED_LENGTH_{name} ({n})" =
      some ("MAX_ENCODED_LENGTH_" ++ name) := by
    rw [defined?, wordThen?_eq (' ' :: '(' :: ((toString n).toList ++ [')'])) hword
      (by simp; decide) (by simp [toString_string])]
    rfl
  rw [ordinary_line, htypedef, hdefined]
  rfl

/-! ## Functions -/

def IsHead (name head : String) : Prop :=
  ∃ arguments, head.toList = "enum wire_status ".toList ++ (name.toList ++ '(' :: arguments)

theorem isHead_packSignature (h : packSignature refer d = .ok head) :
    IsHead ("pack_" ++ d.name) head := by
  obtain ⟨text, -, hend⟩ := except_bind_eq_ok_iff.1 h
  cases hend
  refine ⟨"struct wire_buffer * buf, const ".toList ++ (text.toList ++ " * src)".toList), ?_⟩
  simp [toString_string]

theorem isHead_unpackSignature (h : unpackSignature refer d = .ok head) :
    IsHead ("unpack_" ++ d.name) head := by
  obtain ⟨text, -, hend⟩ := except_bind_eq_ok_iff.1 h
  cases hend
  refine ⟨"struct wire_reader * rd, ".toList ++ (text.toList ++ " * dst)".toList), ?_⟩
  simp [toString_string]

theorem IsHead.routine?_append (h : IsHead name head) (hname : IsWord name) (rest : String) :
    routine? (head ++ rest) = some name := by
  obtain ⟨arguments, hhead⟩ := h
  rw [routine?, wordThen?_eq ('(' :: (arguments ++ rest.toList)) hname (by simp; decide)
    (by simp [hhead])]
  rfl

theorem IsHead.routine?_inline (h : IsHead name head) (hname : IsWord name) (rest : String) :
    routine? ("static inline " ++ head ++ rest) = some name := by
  obtain ⟨arguments, hhead⟩ := h
  have hother : wordThen? "enum wire_status " "(" ("static inline " ++ head ++ rest) = none := by
    simp [wordThen?, List.isPrefixOf?]
  rw [routine?, hother, Option.none_or, wordThen?_eq ('(' :: (arguments ++ rest.toList)) hname
    (by simp; decide) (by simp [hhead])]
  rfl

/-- A function is no enum, though its result is one. -/
theorem IsHead.enumTag?_append (h : IsHead name head) (hname : IsWord name) (rest : String) :
    enumTag? (head ++ rest) = none := by
  obtain ⟨arguments, hhead⟩ := h
  rw [enumTag?, wordThen?_eq (w := "wire_status")
    (' ' :: (name.toList ++ '(' :: (arguments ++ rest.toList))) (List.all_eq_true.1 rfl)
    (by simp; decide) (by simp [hhead])]
  cases hcs : name.toList with
  | nil => rfl
  | cons c cs =>
    have hbrace : c ≠ '\x7b' := by
      rintro rfl
      exact absurd (hname _ (hcs ▸ List.mem_cons_self)) (by decide)
    simp [List.isPrefixOf?, hbrace.symm]

theorem IsHead.structTag?_append (h : IsHead name head) (rest : String) :
    structTag? (head ++ rest) = none := by
  obtain ⟨arguments, hhead⟩ := h
  simp [structTag?, wordThen?, hhead, List.isPrefixOf?]

theorem ordinary_block (h : IsHead name head) (hname : IsWord name) (body : Code) :
    ordinary [Code.block head body] = [name] := by
  simp [ordinary, stepOrdinary, Code.block, Code.blockUntil, h.routine?_append hname,
    h.enumTag?_append hname]

theorem ordinary_inlineBlock (h : IsHead name head) (hname : IsWord name) (body : Code) :
    ordinary [Code.block ("static inline " ++ head) body] = [name] := by
  have htag : enumTag? ("static inline " ++ head ++ " \x7b") = none := by
    simp [enumTag?, wordThen?, List.isPrefixOf?]
  simp [ordinary, stepOrdinary, Code.block, Code.blockUntil, h.routine?_inline hname, htag]

theorem tags_block (h : IsHead name head) (hname : IsWord name) (body : Code) :
    tags [Code.block head body] = [] := by
  simp [tags, stepTags, Code.block, Code.blockUntil, h.enumTag?_append hname, h.structTag?_append]

theorem tags_inlineBlock (head : String) (body : Code) :
    tags [Code.block ("static inline " ++ head) body] = [] := by
  have htag : enumTag? ("static inline " ++ head ++ " \x7b") = none := by
    simp [enumTag?, wordThen?, List.isPrefixOf?]
  have hstruct : structTag? ("static inline " ++ head ++ " \x7b") = none := by
    simp [structTag?, wordThen?, List.isPrefixOf?]
  simp [tags, stepTags, Code.block, Code.blockUntil, htag, hstruct]

def Defines (head : String) (code : Code) : Prop :=
  ∃ body, code = [Code.block head body] ∨ code = [Code.block ("static inline " ++ head) body]

theorem Defines.ordinary_eq (h : Defines head code) (hhead : IsHead name head)
    (hname : IsWord name) : ordinary code = [name] := by
  obtain ⟨body, rfl | rfl⟩ := h
  · exact ordinary_block hhead hname body
  · exact ordinary_inlineBlock hhead hname body

theorem Defines.tags_eq (h : Defines head code) (hhead : IsHead name head) (hname : IsWord name) :
    tags code = [] := by
  obtain ⟨body, rfl | rfl⟩ := h
  · exact tags_block hhead hname body
  · exact tags_inlineBlock head body

/-- The code of either routine of a type defines one function, under the signature of that
routine. -/
theorem exists_defines {routine : Builder → Rendering}
    {signature : Referrer → TypeDef → Except TargetError String}
    (hroutine : routine = Builder.pack ∧ signature = packSignature ∨
      routine = Builder.unpack ∧ signature = unpackSignature)
    (h : routine (builder d.kind) refer d = .ok code) :
    ∃ head, signature refer d = .ok head ∧ Defines head code := by
  rcases hroutine with ⟨rfl, rfl⟩ | ⟨rfl, rfl⟩ <;> cases d
  case inl.enumeration | inr.enumeration =>
    obtain ⟨_, -, h⟩ := except_bind_eq_ok_iff.1 h
    obtain ⟨tag, -, h⟩ := except_bind_eq_ok_iff.1 h
    obtain ⟨head, hhead, hend⟩ := except_bind_eq_ok_iff.1 h
    cases hend
    exact ⟨head, hhead, _, .inl rfl⟩
  all_goals
    obtain ⟨_, -, h⟩ := except_bind_eq_ok_iff.1 h
    obtain ⟨head, hhead, hend⟩ := except_bind_eq_ok_iff.1 h
    cases hend
    -- the routines of builtins are inlined, all others are not
    first
      | exact ⟨head, hhead, _, .inl rfl⟩
      | exact ⟨head, hhead, _, .inr rfl⟩

/-! ## Sections -/

/-- The declaration of a type declares the names that the check goes through, apart from the two
routines and the macro. -/
structure Declares (d : TypeDef) (code : Code) : Prop where
  ordinary : ordinary code = ((ordinaryNames d).drop 3).map MangledName.mangled
  tags : (tags code).Perm ((tagNames d).map MangledName.mangled)

theorem declares_declaration (hname : IsWord d.name)
    (hrefer : ∀ b : Builtin, refer b.name = .ok (primitive b))
    (h : (builder d.kind).declaration refer d = .ok code) : Declares d code := by
  cases d with
  | builtin b =>
    cases h
    exact ⟨rfl, .nil⟩
  | scalar t =>
    obtain ⟨_, ht, h⟩ := except_bind_eq_ok_iff.1 h
    cases ht
    obtain ⟨text, htext, hend⟩ := except_bind_eq_ok_iff.1 h
    rw [hrefer] at htext
    cases htext
    cases hend
    exact ⟨ordinary_typedef t.builtin hname, .of_eq (tags_lines _)⟩
  | enumeration t =>
    cases h
    refine ⟨?_, .of_eq (tags_enumBlock hname _)⟩
    rw [ordinary_enumBlock (show IsWord t.name from hname), map_enumerator_enumerators]
    show _ = (t.labels.map fun l => MangledName.mk l (constant t.name l)).map MangledName.mangled
    rw [List.map_map]
    rfl
  | composite t =>
    obtain ⟨_, ht, h⟩ := except_bind_eq_ok_iff.1 h
    cases ht
    obtain ⟨members, -, hend⟩ := except_bind_eq_ok_iff.1 h
    cases hend
    exact ⟨ordinary_structBlock t.name _, .of_eq (tags_structBlock hname _)⟩
  | fixedArray t =>
    obtain ⟨_, ht, h⟩ := except_bind_eq_ok_iff.1 h
    cases ht
    obtain ⟨text, -, hend⟩ := except_bind_eq_ok_iff.1 h
    cases hend
    exact ⟨ordinary_structBlock t.name _, .of_eq (tags_structBlock hname _)⟩
  | variableArray t =>
    obtain ⟨_, ht, h⟩ := except_bind_eq_ok_iff.1 h
    cases ht
    obtain ⟨size, -, h⟩ := except_bind_eq_ok_iff.1 h
    obtain ⟨text, -, hend⟩ := except_bind_eq_ok_iff.1 h
    cases hend
    exact ⟨ordinary_structBlock t.name _, .of_eq (tags_structBlock hname _)⟩
  | group t =>
    obtain ⟨_, ht, h⟩ := except_bind_eq_ok_iff.1 h
    cases ht
    obtain ⟨tag, -, h⟩ := except_bind_eq_ok_iff.1 h
    obtain ⟨members, -, hend⟩ := except_bind_eq_ok_iff.1 h
    cases hend
    have htag : IsWord (tagEnum t) := IsWord.append hname (List.all_eq_true.1 rfl)
    have hparts : ∀ (first last : CodeStep),
        [first, .blank, last] = [first] ++ ([.blank] ++ [last]) :=
      fun _ _ => rfl
    refine ⟨?_, ?_⟩
    · rw [hparts, ordinary_append, ordinary_append, ordinary_enumBlock htag, ordinary_structBlock,
        map_enumerator_enumerators, fieldNames, List.map_map]
      show _ = (t.variants.map fun v =>
        MangledName.mk v.name (constant (tagEnum t) v.name)).map MangledName.mangled
      rw [List.map_map]
      exact List.append_nil _
    · rw [hparts, tags_append, tags_append, tags_enumBlock htag,
        tags_structBlock (show IsWord t.name from hname)]
      exact .swap _ _ _

end

/-- The typedefs, macros, functions and enumerators that belong to a type. -/
def introduced (d : TypeDef) : List String :=
  if d.kind = .builtin then ["pack_" ++ d.name, "unpack_" ++ d.name]
  else (ordinaryNames d).map MangledName.mangled

/-- The section of a type declares the names that belong to the type.  Its prototypes announce
functions that it defines. -/
structure Shows (d : TypeDef) (code : Section) : Prop where
  ordinary : (ordinary code.declaration ++ ordinary code.routines).Perm (introduced d)
  tags : (tags code.declaration ++ tags code.routines).Perm ((tagNames d).map MangledName.mangled)
  announced : ∀ f ∈ announced code.prototypes, f ∈ C.ordinary code.routines

theorem renderSection_eq_ok {ctx : RenderContext} {d : TypeDef} {code : Section}
    (h : renderSection ctx d = .ok code) :
    ∃ declaration pack unpack bounds prototypes, ctx.declaration d = .ok declaration ∧
      ctx.pack d = .ok pack ∧ ctx.unpack d = .ok unpack ∧
      code = ⟨[.blank] ++ declaration ++ Code.lines bounds, Code.lines prototypes,
        [.blank] ++ pack ++ [.blank] ++ unpack⟩ ∧
      (d.kind = .builtin ∧ bounds = [] ∧ prototypes = [] ∨
        d.kind ≠ .builtin ∧
          bounds = [s!"#define MAX_ENCODED_LENGTH_{d.name} ({ctx.schema.maxEncodedLength d})"] ∧
          ∃ packHead unpackHead, packSignature ctx.reference d = .ok packHead ∧
            unpackSignature ctx.reference d = .ok unpackHead ∧
            prototypes = [s!"{packHead};", s!"{unpackHead};"]) := by
  obtain ⟨declaration, hdeclaration, h⟩ := except_bind_eq_ok_iff.1 h
  by_cases hkind : d.kind = .builtin
  · rw [if_pos hkind] at h
    obtain ⟨_, hparts, h⟩ := except_bind_eq_ok_iff.1 h
    cases hparts
    obtain ⟨pack, hpack, h⟩ := except_bind_eq_ok_iff.1 h
    obtain ⟨unpack, hunpack, hend⟩ := except_bind_eq_ok_iff.1 h
    exact ⟨declaration, pack, unpack, [], [], hdeclaration, hpack, hunpack,
      (Except.ok.inj hend).symm, .inl ⟨hkind, rfl, rfl⟩⟩
  · rw [if_neg hkind] at h
    obtain ⟨packHead, hpackHead, h⟩ := except_bind_eq_ok_iff.1 h
    obtain ⟨unpackHead, hunpackHead, h⟩ := except_bind_eq_ok_iff.1 h
    obtain ⟨_, hparts, h⟩ := except_bind_eq_ok_iff.1 h
    cases hparts
    obtain ⟨pack, hpack, h⟩ := except_bind_eq_ok_iff.1 h
    obtain ⟨unpack, hunpack, hend⟩ := except_bind_eq_ok_iff.1 h
    exact ⟨declaration, pack, unpack, _, _, hdeclaration, hpack, hunpack,
      (Except.ok.inj hend).symm,
      .inr ⟨hkind, rfl, packHead, unpackHead, hpackHead, hunpackHead, rfl⟩⟩

theorem isWord_routines {name : String} (h : IsWord name) :
    IsWord ("pack_" ++ name) ∧ IsWord ("unpack_" ++ name) :=
  ⟨IsWord.append (List.all_eq_true.1 rfl) h, IsWord.append (List.all_eq_true.1 rfl) h⟩

/-- The routines of a section are two functions, and declare no tags. -/
theorem routines_section {ctx : RenderContext} {d : TypeDef} {pack unpack : Code}
    (h : ctx.Renders backend) (hname : IsWord d.name) (hpack : ctx.pack d = .ok pack)
    (hunpack : ctx.unpack d = .ok unpack) :
    ordinary ([.blank] ++ pack ++ [.blank] ++ unpack) = ["pack_" ++ d.name, "unpack_" ++ d.name] ∧
      tags ([.blank] ++ pack ++ [.blank] ++ unpack) = [] := by
  rw [h.pack_eq] at hpack
  rw [h.unpack_eq] at hunpack
  obtain ⟨packHead, hpackHead, hpack⟩ := exists_defines (.inl ⟨rfl, rfl⟩) hpack
  obtain ⟨unpackHead, hunpackHead, hunpack⟩ := exists_defines (.inr ⟨rfl, rfl⟩) hunpack
  obtain ⟨hpackName, hunpackName⟩ := isWord_routines hname
  have hpackIs := isHead_packSignature hpackHead
  have hunpackIs := isHead_unpackSignature hunpackHead
  refine ⟨?_, ?_⟩
  · rw [ordinary_append, ordinary_append, ordinary_append, hpack.ordinary_eq hpackIs hpackName,
      hunpack.ordinary_eq hunpackIs hunpackName]
    rfl
  · rw [tags_append, tags_append, tags_append, hpack.tags_eq hpackIs hpackName,
      hunpack.tags_eq hunpackIs hunpackName]
    rfl

theorem shows_section {ctx : RenderContext} {d : TypeDef} {code : Section}
    (h : ctx.Renders backend) (hname : IsWord d.name) (hcode : renderSection ctx d = .ok code) :
    Shows d code := by
  obtain ⟨declaration, pack, unpack, bounds, prototypes, hdeclaration, hpack, hunpack, rfl,
    hparts⟩ := renderSection_eq_ok hcode
  rw [h.declaration_eq] at hdeclaration
  have hdeclares := declares_declaration hname (reference_builtin h) hdeclaration
  obtain ⟨hroutines, htags⟩ := routines_section h hname hpack hunpack
  obtain ⟨hpackName, hunpackName⟩ := isWord_routines hname
  refine ⟨?_, ?_, ?_⟩
  · rw [hroutines, ordinary_append, ordinary_append, hdeclares.ordinary]
    rcases hparts with ⟨hkind, rfl, -⟩ | ⟨hkind, rfl, -⟩
    · rw [introduced, if_pos hkind]
      cases d with
      | builtin b => exact .refl _
      | _ => cases hkind
    · rw [introduced, if_neg hkind, ordinary_bound hname]
      exact List.perm_append_comm.trans (List.perm_append_comm.append_left _)
  · rw [htags, List.append_nil, tags_append, tags_append, tags_lines, List.append_nil]
    exact hdeclares.tags
  · rw [hroutines, announced, Page.statements_lines]
    rcases hparts with ⟨-, -, rfl⟩ | ⟨-, -, head, head', hhead, hhead', rfl⟩
    · simp
    · have hannounced : [head ++ ";", head' ++ ";"].filterMap routine? =
          ["pack_" ++ d.name, "unpack_" ++ d.name] := by
        rw [List.filterMap_cons_some ((isHead_packSignature hhead).routine?_append hpackName ";"),
          List.filterMap_cons_some
            ((isHead_unpackSignature hhead').routine?_append hunpackName ";")]
        rfl
      exact fun f hf => hannounced ▸ hf

end Target.C
end WireCodec
