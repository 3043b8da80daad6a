import Mathlib.Data.Nat.Digits.Defs
import WireCodec.Proofs.Acceptance
import WireCodec.Source.Declaration

/-!
# The phrases of schema texts

Every parser of the front end takes a certain set of phrases, each for a certain result.  Where the
tokens stand and what follows the phrase makes no difference.

* `Recognizes p L`               `p` takes exactly the phrases of `L` from the front of a list;
* `Recognizes.bind`, `recognizes_word_bind`   phrases of parsers that run one after the other;
* `Declaration.Spelling`         the grammar of declarations;
* `recognizes_declaration`       the parser of declarations takes exactly this grammar.
-/

namespace WireCodec

theorem Builtin.ofName?_name (b : Builtin) : Builtin.ofName? b.name = some b := by
  cases b <;> decide

namespace Source

/-! ## Phrases -/

section
variable {α β : Type}

/-- The parser succeeds exactly on lists that begin with tokens whose texts are in `L`.  It takes
these tokens, and `L` relates their texts to the result. -/
def Recognizes (p : Parser α) (L : List String → α → Prop) : Prop :=
  ∀ ts a rest, p ts = .ok (a, rest) ↔ ∃ front, ts = front ++ rest ∧ L (front.map Token.text) a

variable {p : Parser α} {f : α → Parser β} {L L' : List String → α → Prop}

theorem bind_eq_ok_iff {ts rest : List Token} {b : β} :
    (p >>= f) ts = .ok (b, rest) ↔ ∃ a mid, p ts = .ok (a, mid) ∧ f a mid = .ok (b, rest) := by
  refine ⟨bind_eq_ok, ?_⟩
  rintro ⟨a, mid, hp, hf⟩
  show (p ts >>= fun x => f x.1 x.2) = .ok (b, rest)
  rw [hp]
  exact hf

theorem Recognizes.congr (h : Recognizes p L) (hL : ∀ texts a, L texts a ↔ L' texts a) :
    Recognizes p L' := by
  intro ts a rest
  rw [h ts a rest]
  exact exists_congr fun front => and_congr_right fun _ => hL _ a

theorem recognizes_pure (a : α) :
    Recognizes (pure a) fun texts b => texts = [] ∧ b = a := by
  intro ts b rest
  constructor
  · intro h
    cases h
    exact ⟨[], rfl, rfl, rfl⟩
  · rintro ⟨front, rfl, hfront, rfl⟩
    cases List.map_eq_nil_iff.1 hfront
    rfl

theorem recognizes_throw (e : CompileError) :
    Recognizes (throw e : Parser α) fun _ _ => False := by
  intro ts a rest
  constructor
  · intro h
    cases h
  · rintro ⟨front, -, hfalse⟩
    cases hfalse

theorem Recognizes.bind {M : α → List String → β → Prop} (hp : Recognizes p L)
    (hf : ∀ a, Recognizes (f a) (M a)) :
    Recognizes (p >>= f) fun texts b =>
      ∃ a front back, texts = front ++ back ∧ L front a ∧ M a back b := by
  intro ts b rest
  rw [bind_eq_ok_iff]
  constructor
  · rintro ⟨a, mid, hfirst, hsecond⟩
    obtain ⟨front, rfl, hL⟩ := (hp _ _ _).1 hfirst
    obtain ⟨back, rfl, hM⟩ := (hf a _ _ _).1 hsecond
    refine ⟨front ++ back, (List.append_assoc front back rest).symm, a, _, _, ?_, hL, hM⟩
    exact List.map_append
  · rintro ⟨both, rfl, a, front, back, htexts, hL, hM⟩
    obtain ⟨front, back, rfl, rfl, rfl⟩ := List.map_eq_append_iff.1 htexts
    refine ⟨a, back ++ rest, (hp _ _ _).2 ⟨front, ?_, hL⟩, (hf a _ _ _).2 ⟨back, rfl, hM⟩⟩
    exact List.append_assoc front back rest

end

/-! ## Single tokens -/

section
variable {β : Type} {f : Token → Parser β} {L : String → List String → β → Prop}

theorem nextToken_eq_ok_iff {ts rest : List Token} {t : Token} :
    nextToken ts = .ok (t, rest) ↔ ts = t :: rest := by
  cases ts with
  | nil => exact ⟨(fun h => nomatch h), fun h => nomatch h⟩
  | cons t' ts =>
    constructor
    · intro h
      cases h
      rfl
    · intro h
      cases h
      rfl

theorem expect_eq_ok_iff {wanted : TokenClass} {ts rest : List Token} {t : Token} :
    expect wanted ts = .ok (t, rest) ↔ ts = t :: rest ∧ wanted.accepts t.text = true := by
  cases ts with
  | nil => exact ⟨(fun h => nomatch h), fun h => nomatch h.1⟩
  | cons t' ts =>
    rw [expect]
    by_cases haccepts : wanted.accepts t'.text = true
    · rw [if_pos haccepts]
      constructor
      · intro h
        cases h
        exact ⟨rfl, haccepts⟩
      · rintro ⟨h, -⟩
        cases h
        rfl
    · rw [if_neg haccepts]
      constructor
      · intro h
        cases h
      · rintro ⟨h, htext⟩
        cases h
        exact absurd htext haccepts

/-- A parser of one token, followed by one that depends on the text of the token only. -/
theorem recognizes_bind_of_token {p : Parser Token} {P : String → Prop}
    (hp : ∀ ts t rest, p ts = .ok (t, rest) ↔ ts = t :: rest ∧ P t.text)
    (hf : ∀ t, Recognizes (f t) (L t.text)) :
    Recognizes (p >>= f) fun texts b =>
      ∃ text more, texts = text :: more ∧ P text ∧ L text more b := by
  intro ts b rest
  rw [bind_eq_ok_iff]
  constructor
  · rintro ⟨t, mid, hfirst, hsecond⟩
    obtain ⟨rfl, htext⟩ := (hp _ _ _).1 hfirst
    obtain ⟨front, rfl, hL⟩ := (hf t _ _ _).1 hsecond
    exact ⟨t :: front, rfl, _, _, List.map_cons, htext, hL⟩
  · rintro ⟨front, rfl, text, more, htexts, htext, hL⟩
    obtain ⟨t, front, rfl, rfl, rfl⟩ := List.map_eq_cons_iff.1 htexts
    exact ⟨t, front ++ rest, (hp _ _ _).2 ⟨rfl, htext⟩, (hf t _ _ _).2 ⟨front, rfl, hL⟩⟩

theorem recognizes_nextToken_bind (hf : ∀ t, Recognizes (f t) (L t.text)) :
    Recognizes (nextToken >>= f) fun texts b =>
      ∃ text more, texts = text :: more ∧ L text more b := by
  have hp : ∀ ts t rest, nextToken ts = .ok (t, rest) ↔ ts = t :: rest ∧ True := by
    intro ts t rest
    rw [nextToken_eq_ok_iff, and_true]
  refine (recognizes_bind_of_token (P := fun _ => True) hp hf).congr fun texts b => ?_
  simp only [true_and]

theorem recognizes_expect_bind (wanted : TokenClass) (hf : ∀ t, Recognizes (f t) (L t.text)) :
    Recognizes (expect wanted >>= f) fun texts b =>
      ∃ text more, texts = text :: more ∧ wanted.accepts text = true ∧ L text more b :=
  recognizes_bind_of_token (fun _ _ _ => expect_eq_ok_iff) hf

theorem recognizes_word_bind (word : String) {p : Parser β} {M : List String → β → Prop}
    (hp : Recognizes p M) :
    Recognizes (expect (.word word) >>= fun _ => p) fun texts b =>
      ∃ more, texts = word :: more ∧ M more b := by
  refine (recognizes_expect_bind _ (L := fun _ => M) fun _ => hp).congr fun texts b => ?_
  constructor
  · rintro ⟨text, more, rfl, hword, hM⟩
    have htext : text = word := of_decide_eq_true hword
    exact ⟨more, by rw [htext], hM⟩
  · rintro ⟨more, rfl, hM⟩
    exact ⟨word, more, rfl, decide_eq_true rfl, hM⟩

end

theorem recognizes_expectName :
    Recognizes expectName fun texts name => texts = [name] ∧ Text.isIdentifier name = true := by
  have heq : expectName = (expect .identifier >>= fun t => pure t.text) := by
    simp only [expectName, map_eq_pure_bind]
  rw [heq]
  have hrun := recognizes_expect_bind .identifier
    (L := fun text texts name => texts = [] ∧ name = text) fun t => recognizes_pure t.text
  refine hrun.congr fun texts name => ?_
  constructor
  · rintro ⟨text, more, rfl, hname, rfl, rfl⟩
    exact ⟨rfl, hname⟩
  · rintro ⟨rfl, hname⟩
    exact ⟨name, [], rfl, hname, rfl, rfl⟩

theorem recognizes_expectBuiltin :
    Recognizes expectBuiltin fun texts b => texts = [b.name] := by
  unfold expectBuiltin
  refine Recognizes.congr (recognizes_expect_bind .builtin
    (L := fun text texts b => texts = [] ∧ Builtin.ofName? text = some b) fun t => ?_)
    fun texts b => ?_
  · cases hname : Builtin.ofName? t.text with
    | none =>
      refine (recognizes_throw _).congr fun texts b => ?_
      simp only [reduceCtorEq, and_false]
    | some b =>
      refine (recognizes_pure b).congr fun texts b' => ?_
      rw [Option.some.injEq, eq_comm (b := b)]
  · constructor
    · rintro ⟨text, more, rfl, -, rfl, hname⟩
      have hfound := List.find?_some hname
      rw [of_decide_eq_true hfound]
    · rintro rfl
      have hname := Builtin.ofName?_name b
      refine ⟨b.name, [], rfl, ?_, rfl, hname⟩
      rw [TokenClass.accepts, hname]
      rfl

/-! ## Counts -/

/-- The text is a string of ASCII digits with the value `n`, below the greatest count. -/
def IsCount (text : String) (n : Nat) : Prop :=
  text ≠ "" ∧ (∀ c ∈ text.toList, c.isDigit = true) ∧
    n = Nat.ofDigits 10 (text.toList.reverse.map fun c => c.toNat - '0'.toNat) ∧ n < 2 ^ 64

theorem decimalValue?_eq_some_iff {cs : List Char} {n : Nat} :
    decimalValue? cs = some n ↔ (∀ c ∈ cs, c.isDigit = true) ∧
      n = Nat.ofDigits 10 (cs.reverse.map fun c => c.toNat - '0'.toNat) := by
  have hvalue : cs.foldl (fun n c => 10 * n + (c.toNat - '0'.toNat)) 0 =
      Nat.ofDigits 10 (cs.reverse.map fun c => c.toNat - '0'.toNat) := by
    rw [List.foldl_eq_foldr_reverse, Nat.ofDigits_eq_foldr, List.foldr_map]
    simp only [Nat.cast_id, Nat.add_comm]
  unfold decimalValue?
  rw [hvalue]
  by_cases hdigits : cs.all Char.isDigit = true
  · rw [if_pos hdigits, Option.some.injEq, eq_comm]
    rw [List.all_eq_true] at hdigits
    exact ⟨fun h => ⟨hdigits, h⟩, fun h => h.2⟩
  · rw [if_neg hdigits]
    rw [List.all_eq_true] at hdigits
    exact ⟨(fun h => nomatch h), fun h => absurd h.1 hdigits⟩

theorem recognizes_expectCount :
    Recognizes expectCount fun texts n => ∃ text, texts = [text] ∧ IsCount text n := by
  unfold expectCount
  refine Recognizes.congr (recognizes_expect_bind .integer
    (L := fun text texts n => texts = [] ∧ decimalValue? text.toList = some n ∧ n < 2 ^ 64)
    fun t => ?_) fun texts n => ?_
  · cases hvalue : decimalValue? t.text.toList with
    | none =>
      refine (recognizes_throw _).congr fun texts n => ?_
      simp only [reduceCtorEq, false_and, and_false]
    | some m =>
      by_cases hm : m < twoPow 64
      · simp only [if_pos hm]
        refine (recognizes_pure m).congr fun texts n => and_congr_right fun _ => ?_
        constructor
        · rintro rfl
          exact ⟨rfl, hm⟩
        · rintro ⟨h, -⟩
          exact (Option.some.inj h).symm
      · simp only [if_neg hm]
        refine (recognizes_throw _).congr fun texts n => ⟨False.elim, ?_⟩
        rintro ⟨-, h, hn⟩
        cases h
        exact hm hn
  · constructor
    · rintro ⟨text, more, rfl, hinteger, rfl, hvalue, hn⟩
      rw [decimalValue?_eq_some_iff] at hvalue
      rw [TokenClass.accepts, Bool.and_eq_true, bne_iff_ne] at hinteger
      exact ⟨text, rfl, hinteger.1, hvalue.1, hvalue.2, hn⟩
    · rintro ⟨text, rfl, hne, hdigits, hvalue, hn⟩
      refine ⟨text, [], rfl, ?_, rfl, decimalValue?_eq_some_iff.2 ⟨hdigits, hvalue⟩, hn⟩
      rw [TokenClass.accepts, Bool.and_eq_true, bne_iff_ne, List.all_eq_true]
      refine ⟨hne, fun c hc => ?_⟩
      unfold Text.isDecimalDigit
      rw [hdigits c hc, Bool.true_or]

/-! ## Declarations -/

/-- Labels, each with its semicolon, and the closing brace. -/
def labelTexts (labels : List String) : List String :=
  labels.flatMap (fun label => [label, ";"]) ++ ["\x7d"]

/-- Fields, each a type and a name with a semicolon, and the closing brace. -/
def fieldTexts (fields : List Field) : List String :=
  fields.flatMap (fun f => [f.typeName, f.name, ";"]) ++ ["\x7d"]

/-- The grammar: the texts that a declaration can be written with. -/
def Declaration.Spelling : Declaration → List String → Prop
  | scalar name builtin, texts =>
    Text.isIdentifier name = true ∧ texts = ["scalar", name, builtin.name, ";"]
  | enumeration name labels, texts =>
    Text.isIdentifier name = true ∧ (∀ label ∈ labels, Text.isIdentifier label = true) ∧
      texts = "enumeration" :: name :: "\x7b" :: labelTexts labels
  | composite name fields, texts =>
    Text.isIdentifier name = true ∧
      (∀ f ∈ fields, Text.isIdentifier f.typeName = true ∧ Text.isIdentifier f.name = true) ∧
      texts = "composite" :: name :: "\x7b" :: fieldTexts fields
  | fixedArray name element count, texts =>
    Text.isIdentifier name = true ∧ Text.isIdentifier element = true ∧
      ∃ size, IsCount size count ∧ texts = ["fixed_array", name, element, "[", size, "]", ";"]
  | variableArray name element max sizeType, texts =>
    Text.isIdentifier name = true ∧ Text.isIdentifier element = true ∧
      ∃ size, IsCount size max ∧
        texts = ["variable_array", name, element, "[", size, "]", sizeType.name, ";"]
  | group name variants, texts =>
    Text.isIdentifier name = true ∧
      (∀ f ∈ variants, Text.isIdentifier f.typeName = true ∧ Text.isIdentifier f.name = true) ∧
      texts = "group" :: name :: "\x7b" :: fieldTexts variants

theorem Declaration.Spelling.ne_nil {d : Declaration} {texts : List String}
    (h : d.Spelling texts) : texts ≠ [] := by
  rintro rfl
  cases d <;> simp [Spelling] at h

theorem ne_brace_of_isIdentifier {text : String} (h : Text.isIdentifier text = true) :
    text ≠ "\x7d" := by
  rintro rfl
  exact absurd h (by decide)

theorem labelsToBrace_of_brace {t : Token} {ts : List Token} (h : t.text = "\x7d") :
    labelsToBrace (t :: ts) = .ok ([], ts) := by
  unfold labelsToBrace
  exact if_pos h

theorem labelsToBrace_of_label {t semicolon : Token} {ts rest : List Token} {labels : List String}
    (hname : Text.isIdentifier t.text = true) (hsemicolon : semicolon.text = ";")
    (h : labelsToBrace ts = .ok (labels, rest)) :
    labelsToBrace (t :: semicolon :: ts) = .ok (t.text :: labels, rest) := by
  have haccepts : TokenClass.identifier.accepts t.text = true := hname
  rw [labelsToBrace, if_neg (ne_brace_of_isIdentifier hname), haccepts, if_neg (by decide),
    if_neg (not_not.2 hsemicolon), h]

theorem recognizes_labelsToBrace :
    Recognizes labelsToBrace fun texts labels =>
      (∀ label ∈ labels, Text.isIdentifier label = true) ∧ texts = labelTexts labels := by
  intro ts labels rest
  constructor
  · fun_induction labelsToBrace ts generalizing labels with
    | case2 t ts hbrace =>
      intro h
      cases h
      refine ⟨[t], rfl, fun label hlabel => absurd hlabel List.not_mem_nil, ?_⟩
      rw [List.map_singleton, hbrace]
      rfl
    | case7 t _ hname semicolon ts hsemicolon labels' rest' hrest ih =>
      intro h
      cases h
      obtain ⟨front, rfl, hlabels, hfront⟩ := ih _ hrest
      rw [Bool.not_eq_true, Bool.not_eq_false'] at hname
      refine ⟨t :: semicolon :: front, rfl, List.forall_mem_cons.2 ⟨hname, hlabels⟩, ?_⟩
      rw [List.map_cons, List.map_cons, hfront, not_not.1 hsemicolon]
      rfl
    | _ =>
      intro h
      cases h
  · rintro ⟨front, rfl, hlabels, hfront⟩
    induction labels generalizing front with
    | nil =>
      obtain ⟨t, more, rfl, hbrace, hmore⟩ := List.map_eq_cons_iff.1 hfront
      cases List.map_eq_nil_iff.1 hmore
      exact labelsToBrace_of_brace hbrace
    | cons label labels ih =>
      obtain ⟨t, more, rfl, rfl, hmore⟩ := List.map_eq_cons_iff.1 hfront
      obtain ⟨semicolon, more, rfl, hsemicolon, hmore⟩ := List.map_eq_cons_iff.1 hmore
      rw [List.forall_mem_cons] at hlabels
      exact labelsToBrace_of_label hlabels.1 hsemicolon (ih more hlabels.2 hmore)

theorem fieldsToBrace_of_brace {t : Token} {ts : List Token} (h : t.text = "\x7d") :
    fieldsToBrace (t :: ts) = .ok ([], ts) := by
  unfold fieldsToBrace
  exact if_pos h

theorem fieldsToBrace_of_field {t name semicolon : Token} {ts rest : List Token}
    {fields : List Field} (htype : Text.isIdentifier t.text = true)
    (hname : Text.isIdentifier name.text = true) (hsemicolon : semicolon.text = ";")
    (h : fieldsToBrace ts = .ok (fields, rest)) :
    fieldsToBrace (t :: name :: semicolon :: ts) =
      .ok (⟨name.text, t.text⟩ :: fields, rest) := by
  have haccepts : TokenClass.identifier.accepts t.text = true := htype
  have haccepts' : TokenClass.identifier.accepts name.text = true := hname
  rw [fieldsToBrace, if_neg (ne_brace_of_isIdentifier htype), haccepts, if_neg (by decide),
    haccepts', if_neg (by decide), if_neg (not_not.2 hsemicolon), h]

theorem recognizes_fieldsToBrace :
    Recognizes fieldsToBrace fun texts fields =>
      (∀ f ∈ fields, Text.isIdentifier f.typeName = true ∧ Text.isIdentifier f.name = true) ∧
        texts = fieldTexts fields := by
  intro ts fields rest
  constructor
  · fun_induction fieldsToBrace ts generalizing fields with
    | case2 t ts hbrace =>
      intro h
      cases h
      refine ⟨[t], rfl, fun f hf => absurd hf List.not_mem_nil, ?_⟩
      rw [List.map_singleton, hbrace]
      rfl
    | case9 t _ htype name hname semicolon ts hsemicolon fields' rest' hrest ih =>
      intro h
      cases h
      obtain ⟨front, rfl, hfields, hfront⟩ := ih _ hrest
      rw [Bool.not_eq_true, Bool.not_eq_false'] at htype hname
      refine ⟨t :: name :: semicolon :: front, rfl,
        List.forall_mem_cons.2 ⟨⟨htype, hname⟩, hfields⟩, ?_⟩
      rw [List.map_cons, List.map_cons, List.map_cons, hfront, not_not.1 hsemicolon]
      rfl
    | _ =>
      intro h
      cases h
  · rintro ⟨front, rfl, hfields, hfront⟩
    induction fields generalizing front with
    | nil =>
      obtain ⟨t, more, rfl, hbrace, hmore⟩ := List.map_eq_cons_iff.1 hfront
      cases List.map_eq_nil_iff.1 hmore
      exact fieldsToBrace_of_brace hbrace
    | cons f fields ih =>
      obtain ⟨name, typeName⟩ := f
      obtain ⟨t, behindType, rfl, rfl, hbehindType⟩ := List.map_eq_cons_iff.1 hfront
      obtain ⟨name, behindName, rfl, rfl, hbehindName⟩ := List.map_eq_cons_iff.1 hbehindType
      obtain ⟨semicolon, more, rfl, hsemicolon, hmore⟩ := List.map_eq_cons_iff.1 hbehindName
      rw [List.forall_mem_cons] at hfields
      exact fieldsToBrace_of_field hfields.1.1 hfields.1.2 hsemicolon (ih more hfields.2 hmore)

theorem recognizes_elementAndSize :
    Recognizes elementAndSize fun texts array =>
      Text.isIdentifier array.1 = true ∧
        ∃ size, IsCount size array.2 ∧ texts = [array.1, "[", size, "]"] := by
  have hrun := recognizes_expectName.bind fun element =>
    recognizes_word_bind "[" <| recognizes_expectCount.bind fun size =>
      recognizes_word_bind "]" <| recognizes_pure (element, size)
  refine hrun.congr fun texts array => ?_
  constructor
  · rintro ⟨element, _, _, rfl, ⟨rfl, helement⟩, _, rfl, n, _, _, rfl, ⟨size, rfl, hsize⟩, _, rfl,
      rfl, rfl⟩
    exact ⟨helement, size, hsize, rfl⟩
  · rintro ⟨helement, size, hsize, rfl⟩
    exact ⟨array.1, _, _, rfl, ⟨rfl, helement⟩, _, rfl, array.2, _, _, rfl, ⟨size, rfl, hsize⟩, _,
      rfl, rfl, rfl⟩

theorem recognizes_braced {γ : Type} {p : Parser γ} {M : List String → γ → Prop}
    (hp : Recognizes p M) (make : String → γ → Declaration) :
    Recognizes (do
      let name ← expectName
      let _ ← expect (.word "\x7b")
      return make name (← p)) fun texts d =>
        ∃ name entries more, Text.isIdentifier name = true ∧ M more entries ∧
          texts = name :: "\x7b" :: more ∧ d = make name entries := by
  have hrun := recognizes_expectName.bind fun name =>
    recognizes_word_bind "\x7b" <| hp.bind fun entries => recognizes_pure (make name entries)
  refine hrun.congr fun texts d => ?_
  constructor
  · rintro ⟨name, _, _, rfl, ⟨rfl, hname⟩, _, rfl, entries, more, _, rfl, hM, rfl, rfl⟩
    exact ⟨name, entries, more, hname, hM, by rw [List.append_nil]; rfl, rfl⟩
  · rintro ⟨name, entries, more, hname, hM, rfl, rfl⟩
    exact ⟨name, _, _, rfl, ⟨rfl, hname⟩, _, rfl, entries, more, [], (List.append_nil more).symm,
      hM, rfl, rfl⟩

/-! Behind each keyword stands one kind of declaration: the grammar of the others begins with
another word. -/

theorem recognizes_scalar :
    Recognizes (do
      let name ← expectName
      let builtin ← expectBuiltin
      let _ ← expect (.word ";")
      return Declaration.scalar name builtin) fun texts d => d.Spelling ("scalar" :: texts) := by
  have hrun := recognizes_expectName.bind fun name => recognizes_expectBuiltin.bind fun builtin =>
    recognizes_word_bind ";" <| recognizes_pure (Declaration.scalar name builtin)
  refine hrun.congr fun texts d => ?_
  constructor
  · rintro ⟨name, _, _, rfl, ⟨rfl, hname⟩, builtin, _, _, rfl, rfl, _, rfl, rfl, rfl⟩
    exact ⟨hname, rfl⟩
  · intro h
    cases d with
    | scalar name builtin =>
      obtain ⟨hname, htexts⟩ := h
      cases htexts
      exact ⟨name, _, _, rfl, ⟨rfl, hname⟩, builtin, _, _, rfl, rfl, _, rfl, rfl, rfl⟩
    | _ => simp [Declaration.Spelling] at h

theorem recognizes_enumeration :
    Recognizes (do
      let name ← expectName
      let _ ← expect (.word "\x7b")
      return Declaration.enumeration name (← labelsToBrace)) fun texts d =>
        d.Spelling ("enumeration" :: texts) := by
  refine (recognizes_braced recognizes_labelsToBrace .enumeration).congr fun texts d => ?_
  constructor
  · rintro ⟨name, labels, more, hname, ⟨hlabels, rfl⟩, rfl, rfl⟩
    exact ⟨hname, hlabels, rfl⟩
  · intro h
    cases d with
    | enumeration name labels =>
      obtain ⟨hname, hlabels, htexts⟩ := h
      cases htexts
      exact ⟨name, labels, _, hname, ⟨hlabels, rfl⟩, rfl, rfl⟩
    | _ => simp [Declaration.Spelling] at h

theorem recognizes_composite :
    Recognizes (do
      let name ← expectName
      let _ ← expect (.word "\x7b")
      return Declaration.composite name (← fieldsToBrace)) fun texts d =>
        d.Spelling ("composite" :: texts) := by
  refine (recognizes_braced recognizes_fieldsToBrace .composite).congr fun texts d => ?_
  constructor
  · rintro ⟨name, fields, more, hname, ⟨hfields, rfl⟩, rfl, rfl⟩
    exact ⟨hname, hfields, rfl⟩
  · intro h
    cases d with
    | composite name fields =>
      obtain ⟨hname, hfields, htexts⟩ := h
      cases htexts
      exact ⟨name, fields, _, hname, ⟨hfields, rfl⟩, rfl, rfl⟩
    | _ => simp [Declaration.Spelling] at h

theorem recognizes_fixedArray :
    Recognizes (do
      let name ← expectName
      let (element, count) ← elementAndSize
      let _ ← expect (.word ";")
      return Declaration.fixedArray name element count) fun texts d =>
        d.Spelling ("fixed_array" :: texts) := by
  have hrun := recognizes_expectName.bind fun name => recognizes_elementAndSize.bind fun array =>
    recognizes_word_bind ";" <| recognizes_pure (Declaration.fixedArray name array.1 array.2)
  refine hrun.congr fun texts d => ?_
  constructor
  · rintro ⟨name, _, _, rfl, ⟨rfl, hname⟩, array, _, _, rfl, ⟨helement, size, hsize, rfl⟩, _, rfl,
      rfl, rfl⟩
    exact ⟨hname, helement, size, hsize, rfl⟩
  · intro h
    cases d with
    | fixedArray name element count =>
      obtain ⟨hname, helement, size, hsize, htexts⟩ := h
      cases htexts
      exact ⟨name, _, _, rfl, ⟨rfl, hname⟩, (element, count), _, _, rfl,
        ⟨helement, size, hsize, rfl⟩, _, rfl, rfl, rfl⟩
    | _ => simp [Declaration.Spelling] at h

theorem recognizes_variableArray :
    Recognizes (do
      let name ← expectName
      let (element, max) ← elementAndSize
      let sizeType ← expectBuiltin
      let _ ← expect (.word ";")
      return Declaration.variableArray name element max sizeType) fun texts d =>
        d.Spelling ("variable_array" :: texts) := by
  have hrun := recognizes_expectName.bind fun name => recognizes_elementAndSize.bind fun array =>
    recognizes_expectBuiltin.bind fun sizeType => recognizes_word_bind ";" <|
      recognizes_pure (Declaration.variableArray name array.1 array.2 sizeType)
  refine hrun.congr fun texts d => ?_
  constructor
  · rintro ⟨name, _, _, rfl, ⟨rfl, hname⟩, array, _, _, rfl, ⟨helement, size, hsize, rfl⟩, sizeType,
      _, _, rfl, rfl, _, rfl, rfl, rfl⟩
    exact ⟨hname, helement, size, hsize, rfl⟩
  · intro h
    cases d with
    | variableArray name element max sizeType =>
      obtain ⟨hname, helement, size, hsize, htexts⟩ := h
      cases htexts
      exact ⟨name, _, _, rfl, ⟨rfl, hname⟩, (element, max), _, _, rfl,
        ⟨helement, size, hsize, rfl⟩, sizeType, _, _, rfl, rfl, _, rfl, rfl, rfl⟩
    | _ => simp [Declaration.Spelling] at h

theorem recognizes_group :
    Recognizes (do
      let name ← expectName
      let _ ← expect (.word "\x7b")
      return Declaration.group name (← fieldsToBrace)) fun texts d =>
        d.Spelling ("group" :: texts) := by
  refine (recognizes_braced recognizes_fieldsToBrace .group).congr fun texts d => ?_
  constructor
  · rintro ⟨name, variants, more, hname, ⟨hvariants, rfl⟩, rfl, rfl⟩
    exact ⟨hname, hvariants, rfl⟩
  · intro h
    cases d with
    | group name variants =>
      obtain ⟨hname, hvariants, htexts⟩ := h
      cases htexts
      exact ⟨name, variants, _, hname, ⟨hvariants, rfl⟩, rfl, rfl⟩
    | _ => simp [Declaration.Spelling] at h

theorem recognizes_declarationBody (keyword : Token) :
    Recognizes (declarationBody keyword) fun texts d => d.Spelling (keyword.text :: texts) := by
  unfold declarationBody
  split
  · next hkeyword =>
    rw [hkeyword]
    exact recognizes_scalar
  · next hkeyword =>
    rw [hkeyword]
    exact recognizes_enumeration
  · next hkeyword =>
    rw [hkeyword]
    exact recognizes_composite
  · next hkeyword =>
    rw [hkeyword]
    exact recognizes_fixedArray
  · next hkeyword =>
    rw [hkeyword]
    exact recognizes_variableArray
  · next hkeyword =>
    rw [hkeyword]
    exact recognizes_group
  · refine (recognizes_throw _).congr fun texts d => ⟨False.elim, fun h => ?_⟩
    -- Every declaration begins with one of the six words.
    cases d <;> simp_all [Declaration.Spelling]

/-- The parser of declarations takes exactly what the grammar says. -/
theorem recognizes_declaration : Recognizes declaration fun texts d => d.Spelling texts := by
  have hrun := recognizes_nextToken_bind
    (L := fun text texts d => Declaration.Spelling d (text :: texts)) recognizes_declarationBody
  refine hrun.congr fun texts d => ?_
  constructor
  · rintro ⟨text, more, rfl, h⟩
    exact h
  · intro h
    obtain ⟨text, more, rfl⟩ := List.exists_cons_of_ne_nil h.ne_nil
    exact ⟨text, more, rfl, h⟩

end Source
end WireCodec
