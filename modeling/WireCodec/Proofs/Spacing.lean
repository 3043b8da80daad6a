import WireCodec.Proofs.Tokens
import WireCodec.Proofs.Versions

/-!
# Layout does not matter

However tokens are laid out in a text, the tokenizer finds them: a token is not cut short, and not
joined with the next one, where something stands behind it that breaks words.

* `IsSeparator`                     blanks and comments with the newlines that end them;
* `IsTokenText`                     identifiers, integers, versions and punctuation;
* `Version.versionFront?_of_parse`  the text of a version is taken as one token;
* `lexemeFront?_of_isTokenText`     so is every token text in front of a break;
* `Cut.separator`                   separators are cut into layout;
* `exists_cut_of_entries`           tokens and separators are cut into those tokens and layout;
* `tokenize_layOut`                 the tokens of a text that is laid out are those it was made of.
-/

namespace WireCodec
namespace Source

/-- Blanks and comments, each comment with a newline behind it. -/
inductive IsSeparator : List Char → Prop
  | done : IsSeparator []
  | blank {c : Char} {cs : List Char} (hc : Text.isBlank c = true) (hmore : IsSeparator cs) :
      IsSeparator (c :: cs)
  | comment {chars cs : List Char} (hline : ∀ c ∈ chars, c ≠ '\n') (hmore : IsSeparator cs) :
      IsSeparator ('/' :: '/' :: (chars ++ '\n' :: cs))

def IsMark (text : String) : Prop :=
  ∃ c, isPunctuation c = true ∧ text.toList = [c]

inductive IsTokenText (text : String) : Prop
  | identifier (h : Text.isIdentifier text = true)
  | integer (hne : text ≠ "") (hdigits : ∀ c ∈ text.toList, c.isDigit = true)
  | version {v : Version} (h : Version.parse text = .ok v)
  | mark (h : IsMark text)

/-- Tokens, each with the separator behind it, and the separator in front of the first. -/
def layOut (lead : String) (entries : List (String × String)) : String :=
  lead ++ String.join (entries.map fun entry => entry.1 ++ entry.2)

/-! ## Breaks -/

/-- The text ends or goes on with a character that breaks words. -/
def Breaks (rest : List Char) : Prop :=
  ∀ c ∈ rest.head?, isBreak c = true

section
variable {c : Char} {cs rest : List Char}

theorem isBreak_of_isPunctuation (h : isPunctuation c = true) : isBreak c = true := by
  rw [isBreak, h, Bool.or_true]

theorem isBreak_of_isBlank (h : Text.isBlank c = true) : isBreak c = true := by
  rw [isBreak, h]
  rfl

theorem Breaks.endsWord (h : Breaks rest) : endsWord rest = true := by
  cases rest with
  | nil => rfl
  | cons c cs =>
    show (!Text.isWordChar c) = true
    rw [isWordChar_of_isBreak (h c rfl)]
    rfl

/-- A run of characters that are no breaks ends where the text breaks. -/
theorem Breaks.takeWhile_append {accepts : Char → Bool} (h : Breaks rest)
    (hbreak : ∀ c, isBreak c = true → accepts c = false) (hcs : ∀ c ∈ cs, accepts c = true) :
    (cs ++ rest).takeWhile accepts = cs ∧ (cs ++ rest).dropWhile accepts = rest := by
  have hrest : rest.takeWhile accepts = [] ∧ rest.dropWhile accepts = rest := by
    cases rest with
    | nil => exact ⟨rfl, rfl⟩
    | cons c rest =>
      have hc : ¬ accepts c = true := by
        rw [hbreak c (h c rfl)]
        exact Bool.false_ne_true
      exact ⟨List.takeWhile_cons_of_neg hc, List.dropWhile_cons_of_neg hc⟩
  rw [List.takeWhile_append_of_pos hcs, List.dropWhile_append_of_pos hcs, hrest.1, hrest.2,
    List.append_nil]
  exact ⟨rfl, rfl⟩

theorem not_of_isBreak {accepts : Char → Bool}
    (hword : ∀ c, accepts c = true → Text.isWordChar c = true) (h : isBreak c = true) :
    accepts c = false := by
  by_contra haccepts
  have hc := hword c (eq_true_of_ne_false haccepts)
  rw [isWordChar_of_isBreak h] at hc
  cases hc

theorem Breaks.wordFront? {first more : Char → Bool} (h : Breaks rest) (hc : first c = true)
    (hword : ∀ d, more d = true → Text.isWordChar d = true) (hcs : ∀ d ∈ cs, more d = true) :
    wordFront? first more (c :: (cs ++ rest)) = some (c :: cs) := by
  obtain ⟨htake, hdrop⟩ := h.takeWhile_append (fun d => not_of_isBreak hword) hcs
  rw [Source.wordFront?, htake, hdrop, hc, h.endsWord]
  rfl

end

/-! ## Versions -/

/-- The text ends or goes on with something else than segments. -/
def Stops (rest : List Char) : Prop :=
  ∀ c ∈ rest.head?, isSegmentChar c = false ∧ c ≠ '.'

/-- Read as segments, the characters are taken to their end and no further. -/
def TakenWhole (inSegment : Bool) (cs : List Char) : Prop :=
  ∀ rest, Stops rest → dottedSegments inSegment (cs ++ rest) = cs

section
variable {c : Char} {cs more rest : List Char}

theorem takenWhole_nil (inSegment : Bool) : TakenWhole inSegment [] := by
  intro rest hrest
  rw [List.nil_append]
  fun_cases dottedSegments inSegment rest with
  | case1 c cs => exact absurd rfl (hrest '.' rfl).2
  | case2 => rfl
  | case3 c cs _ hc =>
    rw [(hrest c rfl).1, Bool.and_false] at hc
    cases hc
  | case4 => rfl
  | case5 => rfl

theorem takenWhole_dot (inSegment : Bool) (hc : isSegmentChar c = true) (h : TakenWhole true cs) :
    TakenWhole inSegment ('.' :: c :: cs) := by
  intro rest hrest
  rw [List.cons_append, List.cons_append, dottedSegments_dot inSegment hc, h rest hrest]

theorem takenWhole_append (hcs : ∀ c ∈ cs, isSegmentChar c = true) (h : TakenWhole true more) :
    TakenWhole true (cs ++ more) := by
  induction cs with
  | nil => exact h
  | cons c cs ih =>
    intro rest hrest
    obtain ⟨hc, hcs⟩ := List.forall_mem_cons.1 hcs
    have hopen := ih hcs rest hrest
    rw [dottedSegments_true] at hopen ⊢
    rw [List.cons_append, List.cons_append, List.takeWhile_cons_of_pos hc,
      List.dropWhile_cons_of_pos hc, List.cons_append, hopen]

theorem isBuildChar_of_isBreak (h : isBreak c = true) : isBuildChar c = false := by
  simp only [isBuildChar, isSegmentChar, Bool.or_eq_false_iff]
  refine ⟨⟨?_, ?_⟩, ?_⟩
  · by_contra halnum
    have hword : Text.isWordChar c = true := by
      rw [Text.isWordChar, eq_true_of_ne_false halnum]
      rfl
    rw [isWordChar_of_isBreak h] at hword
    cases hword
  · rw [beq_eq_false_iff_ne]
    rintro rfl
    revert h
    decide
  · rw [beq_eq_false_iff_ne]
    rintro rfl
    revert h
    decide

theorem Breaks.stops (h : Breaks rest) : Stops rest := by
  intro c hc
  have hbuild := isBuildChar_of_isBreak (h c hc)
  rw [isBuildChar, Bool.or_eq_false_iff, beq_eq_false_iff_ne] at hbuild
  exact hbuild

theorem IsBuild.stops {build : List Char} (h : IsBuild build) (hrest : Breaks rest) :
    Stops (build ++ rest) := by
  rcases h with rfl | ⟨more, -, rfl, -⟩
  · exact hrest.stops
  · rintro c hc
    cases hc
    exact ⟨by decide, by decide⟩

theorem IsBuild.buildMetadata_append {build : List Char} (h : IsBuild build)
    (hrest : Breaks rest) : buildMetadata (build ++ rest) = build := by
  rcases h with rfl | ⟨more, hne, rfl, hmore⟩
  · cases rest with
    | nil => rfl
    | cons c rest =>
      rw [List.nil_append, buildMetadata]
      rintro cs heq
      cases heq
      exact absurd (hrest '+' rfl) (by decide)
  · rw [List.cons_append, buildMetadata,
      (hrest.takeWhile_append (fun c => isBuildChar_of_isBreak) hmore).1]
    cases more with
    | nil => exact absurd rfl hne
    | cons c more => rfl

theorem versionFront?_append {c : Char} {digits dotted build : List Char}
    (hdigits : ∀ d ∈ c :: digits, Text.isDecimalDigit d = true)
    (hdotted : TakenWhole false ('.' :: dotted)) (hbuild : IsBuild build) (hrest : Breaks rest) :
    versionFront? (c :: digits ++ '.' :: dotted ++ build ++ rest) =
      some (c :: digits ++ '.' :: dotted ++ build) := by
  have htake : (c :: digits ++ ('.' :: dotted ++ (build ++ rest))).takeWhile Text.isDecimalDigit =
      c :: digits := by
    rw [List.takeWhile_append_of_pos hdigits]
    exact List.append_nil _
  rw [List.append_assoc, List.append_assoc, versionFront?, htake]
  dsimp only
  rw [List.drop_left, hdotted _ (hbuild.stops hrest)]
  dsimp only
  rw [List.drop_left, hbuild.buildMetadata_append hrest]

end
end Source

namespace Version

open Source (TakenWhole takenWhole_nil takenWhole_dot takenWhole_append)

variable {cs rest : List Char} {part last last' : Part} {n : Nat}

theorem exists_of_moreDigits {value : Nat} (h : moreDigits part value cs = .ok (n, rest)) :
    ∃ digits, cs = digits ++ rest ∧ ∀ c ∈ digits, c.isDigit = true := by
  induction cs generalizing value with
  | nil =>
    cases h
    exact ⟨[], rfl, by simp⟩
  | cons c cs ih =>
    rw [moreDigits] at h
    split at h
    · next hdigit =>
      dsimp only at h
      split at h
      · cases h
      · split at h
        · cases h
        · obtain ⟨digits, rfl, hdigits⟩ := ih h
          exact ⟨c :: digits, rfl, List.forall_mem_cons.2 ⟨hdigit, hdigits⟩⟩
    · cases h
      exact ⟨[], rfl, by simp⟩

theorem exists_digits_of_number (h : number part cs = .ok (n, rest)) :
    ∃ c digits, cs = c :: digits ++ rest ∧ c.isDigit = true ∧ ∀ d ∈ digits, d.isDigit = true := by
  cases cs with
  | nil => cases h
  | cons c cs =>
    rw [number] at h
    split at h
    · next hdigit =>
      obtain ⟨digits, rfl, hdigits⟩ := exists_of_moreDigits h
      exact ⟨c, digits, rfl, hdigit, hdigits⟩
    · cases h

theorem eq_of_dot (h : dot part cs = .ok rest) : cs = '.' :: rest := by
  unfold dot at h
  split at h
  · cases h
  · cases h
    rfl
  · cases h

theorem exists_digit_of_parse {text : String} {v : Version} (h : parse text = .ok v) :
    ∃ c cs, text.toList = c :: cs ∧ c.isDigit = true := by
  unfold parse at h
  rw [ite_throw_eq_ok_iff] at h
  obtain ⟨⟨_, _⟩, hmajor, -⟩ := except_bind_eq_ok_iff.1 h.2
  obtain ⟨c, digits, htext, hc, -⟩ := exists_digits_of_number hmajor
  exact ⟨c, _, htext, hc⟩

theorem takenWhole_number {c : Char} {digits more : List Char} (inSegment : Bool)
    (hc : c.isDigit = true) (hdigits : ∀ d ∈ digits, d.isDigit = true) (h : TakenWhole true more) :
    TakenWhole inSegment ('.' :: (c :: digits ++ more)) := by
  have hsegment : ∀ d : Char, d.isDigit = true → Source.isSegmentChar d = true := by
    intro d hd
    rw [Source.isSegmentChar, Char.isAlphanum, hd, Bool.or_true, Bool.true_or]
  exact takenWhole_dot inSegment (hsegment c hc)
    (takenWhole_append (fun d hd => hsegment d (hdigits d hd)) h)

/-- What is read as segments is taken as such, behind the characters in `segment`; behind none of
them it starts with one. -/
theorem exists_of_segments {done segment text : List Char}
    (h : segments part done segment cs = .ok (text, rest)) :
    ∃ front, cs = front ++ rest ∧ TakenWhole true front ∧
      (∀ c ∈ front, Source.isBuildChar c = true) ∧
      (segment = [] → ∃ c more, front = c :: more ∧ isSegmentChar c = true ∧
        TakenWhole true more) := by
  induction cs generalizing done segment with
  | nil =>
    rw [segments] at h
    split at h
    · cases h
    · next hne =>
      split at h
      · cases h
      · cases h
        exact ⟨[], rfl, takenWhole_nil true, by simp, fun hnil => absurd hnil hne⟩
  | cons c cs ih =>
    rw [segments] at h
    split at h
    · next hc =>
      obtain ⟨front, rfl, hfront, hchars, -⟩ := ih h
      have hsegment : Source.isSegmentChar c = true := hc
      have hbuild : Source.isBuildChar c = true := by
        rw [Source.isBuildChar, hsegment, Bool.true_or]
      exact ⟨c :: front, rfl, takenWhole_append (List.forall_mem_singleton.2 hsegment) hfront,
        List.forall_mem_cons.2 ⟨hbuild, hchars⟩, fun _ => ⟨c, front, rfl, hc, hfront⟩⟩
    · split at h
      · cases h
      · next hne =>
        split at h
        · cases h
        · split at h
          · next hdot =>
            obtain ⟨front, rfl, -, hchars, hstart⟩ := ih h
            obtain ⟨d, more, rfl, hd, hmore⟩ := hstart rfl
            subst hdot
            refine ⟨'.' :: d :: more, rfl, takenWhole_dot true hd hmore, ?_,
              fun hnil => absurd hnil hne⟩
            exact List.forall_mem_cons.2 ⟨by decide, hchars⟩
          · cases h
            exact ⟨[], rfl, takenWhole_nil true, by simp, fun hnil => absurd hnil hne⟩

theorem exists_of_marked {mark : Char} {text : List Char}
    (h : marked mark part last cs = .ok (text, rest, last')) :
    cs = rest ∨ ∃ front, cs = mark :: (front ++ rest) ∧ front ≠ [] ∧ TakenWhole true front ∧
      ∀ c ∈ front, Source.isBuildChar c = true := by
  unfold marked at h
  split at h
  · cases h
    exact .inl rfl
  · split at h
    · next heq =>
      obtain ⟨⟨read, left⟩, hsegments, hok⟩ := except_bind_eq_ok_iff.1 h
      cases hok
      obtain ⟨front, rfl, hfront, hchars, hstart⟩ := exists_of_segments hsegments
      obtain ⟨c, more, rfl, -, -⟩ := hstart rfl
      exact .inr ⟨c :: more, by rw [heq], List.cons_ne_nil _ _, hfront, hchars⟩
    · cases h
      exact .inl rfl

/-- The text of a version is taken as one token in front of a break. -/
theorem versionFront?_of_parse {text : String} {v : Version} (h : parse text = .ok v)
    (hrest : Source.Breaks rest) :
    Source.versionFront? (text.toList ++ rest) = some text.toList := by
  unfold parse at h
  rw [ite_throw_eq_ok_iff] at h
  obtain ⟨⟨_, afterMajor⟩, hmajor, h⟩ := except_bind_eq_ok_iff.1 h.2
  obtain ⟨beforeMinor, hdot, h⟩ := except_bind_eq_ok_iff.1 h
  obtain ⟨⟨_, afterMinor⟩, hminor, h⟩ := except_bind_eq_ok_iff.1 h
  obtain ⟨beforePatch, hdot', h⟩ := except_bind_eq_ok_iff.1 h
  obtain ⟨⟨_, afterPatch⟩, hpatch, h⟩ := except_bind_eq_ok_iff.1 h
  obtain ⟨⟨_, afterPreRelease, _⟩, hpreRelease, h⟩ := except_bind_eq_ok_iff.1 h
  obtain ⟨⟨_, afterBuild, _⟩, hbuild, h⟩ := except_bind_eq_ok_iff.1 h
  dsimp only at h
  cases afterBuild with
  | cons c cs => cases h
  | nil =>
  have hbuild' : Source.IsBuild afterPreRelease := by
    rcases exists_of_marked hbuild with rfl | ⟨build, rfl, hne, -, hchars⟩
    · exact .inl rfl
    · rw [List.append_nil]
      exact .inr ⟨build, hne, rfl, hchars⟩
  obtain ⟨preRelease, rfl, hpre⟩ : ∃ preRelease, afterPatch = preRelease ++ afterPreRelease ∧
      TakenWhole true preRelease := by
    rcases exists_of_marked hpreRelease with rfl | ⟨front, rfl, -, hfront, -⟩
    · exact ⟨[], rfl, takenWhole_nil true⟩
    · exact ⟨'-' :: front, rfl, takenWhole_append (List.forall_mem_singleton.2 (by decide)) hfront⟩
  obtain ⟨c, digits, htext, hc, hdigits⟩ := exists_digits_of_number hmajor
  obtain ⟨d, minor, rfl, hd, hminor'⟩ := exists_digits_of_number hminor
  obtain ⟨e, patch, rfl, he, hpatch'⟩ := exists_digits_of_number hpatch
  have hdotted := takenWhole_number false hd hminor' (takenWhole_number true he hpatch' hpre)
  have hmajor' : ∀ x ∈ c :: digits, Text.isDecimalDigit x = true := by
    intro x hx
    have hx' : x.isDigit = true := by
      rcases List.mem_cons.1 hx with rfl | hx
      · exact hc
      · exact hdigits x hx
    rw [Text.isDecimalDigit, hx', Bool.true_or]
  have hfront := Source.versionFront?_append hmajor' hdotted hbuild' hrest
  rw [htext, eq_of_dot hdot, eq_of_dot hdot']
  simpa only [List.append_assoc, List.cons_append] using hfront

end Version

namespace Source

/-! ## Lexemes in front of a break -/

section
variable {afterWord : Bool} {c : Char} {cs rest : List Char} {text : String}

theorem versionFront?_eq_none (h : Text.isDecimalDigit c = false) :
    versionFront? (c :: cs) = none := by
  rw [versionFront?, List.takeWhile_cons_of_neg (by simp [h])]

theorem lexemeFront?_of_layoutFront? {x : List Char} (h : layoutFront? (c :: cs) = some x) :
    lexemeFront? afterWord (c :: cs) = some ⟨.layout, x⟩ := by
  have hword : ¬ Text.isWordChar c = true := by
    intro hc
    rw [layoutFront?_of_isWordChar hc] at h
    cases h
  have hmark : ¬ isPunctuation c = true := by
    intro hc
    rw [layoutFront?_of_isPunctuation hc] at h
    cases h
  have hdigit : Text.isDecimalDigit c = false :=
    eq_false_of_ne_true fun hc => hword (Text.isWordChar_of_isDecimalDigit hc)
  have hstart : Text.isIdentifierStart c = false :=
    eq_false_of_ne_true fun hc => hword (Text.isWordChar_of_isIdentifierStart hc)
  have hnone : tokenFront? afterWord (c :: cs) = none := by
    unfold tokenFront?
    rw [versionFront?_eq_none hdigit]
    dsimp only
    rw [if_neg hmark, wordFront?, wordFront?, hdigit, hstart]
    cases afterWord with
    | true => rfl
    | false => rfl
  rw [lexemeFront?, hnone, h]
  rfl

theorem lexemeFront?_of_isMark (h : IsMark text) :
    lexemeFront? afterWord (text.toList ++ rest) = some ⟨.token, text.toList⟩ := by
  obtain ⟨c, hc, htext⟩ := h
  rw [htext, List.singleton_append, lexemeFront?]
  unfold tokenFront?
  rw [versionFront?_eq_none (isDecimalDigit_of_isPunctuation hc)]
  dsimp only
  rw [if_pos hc]

theorem lexemeFront?_of_versionFront? {x : List Char} (h : versionFront? cs = some x) :
    lexemeFront? afterWord cs = some ⟨.token, x⟩ := by
  rw [lexemeFront?]
  unfold tokenFront?
  rw [h]

theorem isBlank_of_isDigit (h : c.isDigit = true) : Text.isBlank c = false := by
  have hdigit : Text.isDecimalDigit c = true := by
    rw [Text.isDecimalDigit, h, Bool.true_or]
  exact isBlank_of_isWordChar (Text.isWordChar_of_isDecimalDigit hdigit)

theorem isPunctuation_of_isWordChar (h : Text.isWordChar c = true) : ¬ isPunctuation c = true := by
  intro hc
  rw [isWordChar_of_isBreak (isBreak_of_isPunctuation hc)] at h
  cases h

theorem isDecimalDigit_of_isIdentifierStart (h : Text.isIdentifierStart c = true) :
    Text.isDecimalDigit c = false := by
  have hascii : Text.inRanges Text.asciiWordRanges c.toNat = true := by
    rcases Bool.or_eq_true_iff.1 h with halpha | hunderscore
    · exact Text.inRanges_of_isAlphanum (Bool.or_eq_true_iff.2 (.inl halpha))
    · rw [beq_iff_eq.1 hunderscore]
      rfl
  have hdigit : ¬ c.isDigit = true := by
    intro hdigit
    have hlast : c.toNat ≤ 0x39 := of_decide_eq_true (Bool.and_eq_true_iff.1 hdigit).2
    rcases Bool.or_eq_true_iff.1 h with halpha | hunderscore
    · rcases Bool.or_eq_true_iff.1 halpha with hupper | hlower
      · have hfirst : 0x41 ≤ c.toNat := (of_decide_eq_true hupper).1
        omega
      · have hfirst : 0x61 ≤ c.toNat := of_decide_eq_true (Bool.and_eq_true_iff.1 hlower).1
        omega
    · rw [beq_iff_eq.1 hunderscore] at hlast
      revert hlast
      decide
  rw [Text.isDecimalDigit, eq_false_of_ne_true hdigit, Bool.false_or]
  exact Text.inRanges_of_apart rfl hascii

theorem lexemeFront?_of_isIdentifier (h : Text.isIdentifier text = true) (hrest : Breaks rest) :
    lexemeFront? false (text.toList ++ rest) = some ⟨.token, text.toList⟩ := by
  unfold Text.isIdentifier at h
  split at h
  · cases h
  next c cs htext =>
  rw [Bool.and_eq_true, List.all_eq_true] at h
  have hdigit := isDecimalDigit_of_isIdentifierStart h.1
  have hmark := isPunctuation_of_isWordChar (Text.isWordChar_of_isIdentifierStart h.1)
  have hfront := hrest.wordFront? h.1 (fun _ => Text.isWordChar_of_isIdentifierRest) h.2
  rw [htext, List.cons_append, lexemeFront?]
  unfold tokenFront?
  rw [versionFront?_eq_none hdigit]
  dsimp only
  rw [if_neg hmark, if_neg Bool.false_ne_true, hfront, wordFront?, hdigit]
  rfl

theorem lexemeFront?_of_isDigit (hne : text ≠ "") (h : ∀ c ∈ text.toList, c.isDigit = true)
    (hrest : Breaks rest) :
    lexemeFront? false (text.toList ++ rest) = some ⟨.token, text.toList⟩ := by
  have hdigits : ∀ c ∈ text.toList, Text.isDecimalDigit c = true := by
    intro c hc
    rw [Text.isDecimalDigit, h c hc, Bool.true_or]
  have hnone : versionFront? (text.toList ++ rest) = none := by
    rw [versionFront?, (hrest.takeWhile_append
      (fun c => not_of_isBreak fun _ => Text.isWordChar_of_isDecimalDigit) hdigits).1]
    split
    · rfl
    · have hdotted := takenWhole_nil false rest hrest.stops
      rw [List.nil_append] at hdotted
      rw [List.drop_left]
      dsimp only
      rw [hdotted]
  cases htext : text.toList with
  | nil => exact absurd (String.toList_eq_nil_iff.1 htext) hne
  | cons c cs =>
  rw [htext] at hdigits hnone
  obtain ⟨hc, hcs⟩ := List.forall_mem_cons.1 hdigits
  have hmark := isPunctuation_of_isWordChar (Text.isWordChar_of_isDecimalDigit hc)
  have hfront := hrest.wordFront? hc (fun _ => Text.isWordChar_of_isDecimalDigit) hcs
  rw [lexemeFront?]
  unfold tokenFront?
  rw [hnone, List.cons_append]
  dsimp only
  rw [if_neg hmark, if_neg Bool.false_ne_true, hfront]

/-- A token text is found as it is where the text breaks behind it; punctuation is found
everywhere. -/
theorem lexemeFront?_of_isTokenText (htext : IsTokenText text)
    (h : ¬ IsMark text → afterWord = false ∧ Breaks rest) :
    lexemeFront? afterWord (text.toList ++ rest) = some ⟨.token, text.toList⟩ := by
  by_cases hmark : IsMark text
  · exact lexemeFront?_of_isMark hmark
  obtain ⟨rfl, hrest⟩ := h hmark
  cases htext with
  | identifier h => exact lexemeFront?_of_isIdentifier h hrest
  | integer hne hdigits => exact lexemeFront?_of_isDigit hne hdigits hrest
  | version h => exact lexemeFront?_of_versionFront? (Version.versionFront?_of_parse h hrest)
  | mark h => exact absurd h hmark

end

/-! ## Cutting a layout -/

def tokenTexts (ls : List Lexeme) : List String :=
  (ls.filter (·.kind = .token)).map fun l => String.ofList l.chars

section
variable {front back sep rest : List Char} {ls : List Lexeme} {text : String}

theorem Cut.cons_found {l : Lexeme} (hfound : lexemeBetween? front (l.chars ++ back) = some l)
    (h : Cut rest (front ++ l.chars) back ls) : Cut rest front (l.chars ++ back) (l :: ls) := by
  obtain ⟨back', htext, hlexical⟩ := lexemeAt_of_lexemeBetween? hfound
  obtain rfl := List.append_cancel_left htext
  exact .step hfound hlexical h

theorem IsSeparator.dropWhile (h : IsSeparator sep) : IsSeparator (sep.dropWhile Text.isBlank) := by
  induction h with
  | done => exact .done
  | blank hc _ ih => rwa [List.dropWhile_cons_of_pos hc]
  | comment hline hmore =>
    rw [List.dropWhile_cons_of_neg (by decide)]
    exact .comment hline hmore

theorem IsSeparator.breaks (h : IsSeparator sep) (hne : sep ≠ []) : Breaks (sep ++ back) := by
  cases h with
  | done => exact absurd rfl hne
  | blank hc _ =>
    rintro d hd
    cases hd
    exact isBreak_of_isBlank hc
  | comment hline hmore =>
    rintro d hd
    cases hd
    rfl

theorem IsSeparator.endsInWord (h : IsSeparator sep) (hne : sep ≠ []) (before : Bool) :
    endsInWord before sep = false := by
  induction h generalizing before with
  | done => exact absurd rfl hne
  | @blank c cs hc hmore ih =>
    rw [← List.singleton_append, endsInWord_append]
    by_cases hcs : cs = []
    · rw [hcs]
      exact isWordChar_of_isBreak (isBreak_of_isBlank hc)
    · exact ih hcs _
  | @comment chars cs hline hmore ih =>
    have hsplit : '/' :: '/' :: (chars ++ '\n' :: cs) = ('/' :: '/' :: chars ++ ['\n']) ++ cs := by
      simp
    rw [hsplit, endsInWord_append]
    by_cases hcs : cs = []
    · rw [hcs, endsInWord_append]
      show Text.isWordChar '\n' = false
      exact isWordChar_of_isBreak (isBreak_of_isBlank rfl)
    · exact ih hcs _

theorem takeWhile_append_of_head {accepts : Char → Bool}
    (hback : ∀ c ∈ back.head?, accepts c = false) :
    (sep ++ back).takeWhile accepts = sep.takeWhile accepts := by
  induction sep with
  | nil =>
    cases back with
    | nil => rfl
    | cons c back => exact List.takeWhile_cons_of_neg (by simp [hback c rfl])
  | cons c sep ih => rw [List.cons_append, List.takeWhile_cons, List.takeWhile_cons, ih]

theorem Cut.separator (h : Cut rest (front ++ sep) back ls) (hsep : IsSeparator sep)
    (hback : ∀ c ∈ back.head?, Text.isBlank c = false) :
    ∃ ls', Cut rest front (sep ++ back) ls' ∧ tokenTexts ls' = tokenTexts ls := by
  induction hlength : sep.length using Nat.strong_induction_on generalizing front sep with
  | _ n ih =>
  -- One lexeme `x` is taken, and a shorter separator is left.
  have hstep : ∀ x sep', sep = x ++ sep' → x ≠ [] → IsSeparator sep' →
      layoutFront? (sep ++ back) = some x →
      ∃ ls', Cut rest front (sep ++ back) ls' ∧ tokenTexts ls' = tokenTexts ls := by
    rintro x sep' rfl hx hsep' hlayout
    obtain ⟨c, x, rfl⟩ := List.exists_cons_of_ne_nil hx
    rw [← List.append_assoc] at h
    have hshorter : sep'.length < n := by
      rw [← hlength, List.length_append, List.length_cons]
      omega
    obtain ⟨ls', hcut, htexts⟩ := ih sep'.length hshorter h hsep' rfl
    rw [List.append_assoc] at hlayout ⊢
    have hfound : lexemeBetween? front (c :: x ++ (sep' ++ back)) = some ⟨.layout, c :: x⟩ :=
      lexemeFront?_of_layoutFront? hlayout
    exact ⟨⟨.layout, c :: x⟩ :: ls', Cut.cons_found (l := ⟨.layout, c :: x⟩) hfound hcut, htexts⟩
  cases hsep with
  | done =>
    rw [List.append_nil] at h
    exact ⟨ls, h, rfl⟩
  | @blank c cs hc hmore =>
    have hsep : IsSeparator (c :: cs) := .blank hc hmore
    refine hstep ((c :: cs).takeWhile Text.isBlank) ((c :: cs).dropWhile Text.isBlank)
      List.takeWhile_append_dropWhile.symm ?_ hsep.dropWhile ?_
    · rw [List.takeWhile_cons_of_pos hc]
      exact List.cons_ne_nil _ _
    · unfold layoutFront?
      split
      · next heq => cases (List.cons.inj heq).1 ▸ hc
      · rw [takeWhile_append_of_head hback, List.takeWhile_cons_of_pos hc]
  | @comment chars cs hline hmore =>
    refine hstep ('/' :: '/' :: chars) ('\n' :: cs) rfl (List.cons_ne_nil _ _)
      (.blank rfl hmore) ?_
    rw [List.cons_append, List.cons_append, layoutFront?, List.append_assoc,
      List.takeWhile_append_of_pos fun c hc => decide_eq_true (hline c hc), List.cons_append,
      List.takeWhile_cons_of_neg (by decide), List.append_nil]

theorem IsTokenText.exists_cons (h : IsTokenText text) :
    ∃ c cs, text.toList = c :: cs ∧ Text.isBlank c = false := by
  cases h with
  | identifier h =>
    unfold Text.isIdentifier at h
    split at h
    · cases h
    next c cs htext =>
    have hstart := (Bool.and_eq_true_iff.1 h).1
    exact ⟨c, cs, htext, isBlank_of_isWordChar (Text.isWordChar_of_isIdentifierStart hstart)⟩
  | integer hne hdigits =>
    cases htext : text.toList with
    | nil => exact absurd (String.toList_eq_nil_iff.1 htext) hne
    | cons c cs =>
      rw [htext] at hdigits
      exact ⟨c, cs, rfl, isBlank_of_isDigit (hdigits c List.mem_cons_self)⟩
  | version h =>
    obtain ⟨c, cs, htext, hc⟩ := Version.exists_digit_of_parse h
    exact ⟨c, cs, htext, isBlank_of_isDigit hc⟩
  | mark h =>
    obtain ⟨c, hc, htext⟩ := h
    refine ⟨c, [], htext, ?_⟩
    by_contra hblank
    have hnone : layoutFront? [c] = none := layoutFront?_of_isPunctuation hc
    exact layoutFront?_ne_none (eq_true_of_ne_false hblank) hnone

theorem IsMark.breaks (h : IsMark text) : Breaks (text.toList ++ rest) := by
  obtain ⟨c, hc, htext⟩ := h
  rw [htext]
  rintro d hd
  cases hd
  exact isBreak_of_isPunctuation hc

theorem IsMark.endsInWord (h : IsMark text) (before : Bool) :
    endsInWord before text.toList = false := by
  obtain ⟨c, hc, htext⟩ := h
  rw [htext]
  show Text.isWordChar c = false
  exact isWordChar_of_isBreak (isBreak_of_isPunctuation hc)

def entryChars (entries : List (String × String)) : List Char :=
  entries.flatMap fun entry => entry.1.toList ++ entry.2.toList

theorem entryChars_cons (entry : String × String) (entries : List (String × String)) :
    entryChars (entry :: entries) = entry.1.toList ++ (entry.2.toList ++ entryChars entries) := by
  rw [entryChars, List.flatMap_cons, List.append_assoc]
  rfl

theorem toList_layOut (lead : String) (entries : List (String × String)) :
    (layOut lead entries).toList = lead.toList ++ entryChars entries := by
  rw [layOut, String.toList_append, String.toList_join, List.flatMap_map, entryChars]
  simp only [String.toList_append]

theorem isBlank_of_head?_entryChars {entries : List (String × String)}
    (h : ∀ entry ∈ entries, IsTokenText entry.1 ∧ IsSeparator entry.2.toList) :
    ∀ c ∈ (entryChars entries).head?, Text.isBlank c = false := by
  intro c hc
  cases entries with
  | nil => cases hc
  | cons entry entries =>
    obtain ⟨d, cs, htext, hd⟩ := (h entry List.mem_cons_self).1.exists_cons
    rw [entryChars_cons, htext] at hc
    cases hc
    exact hd

/-- Two tokens that are no punctuation have something between them. -/
def Spaced (entries : List (String × String)) : Prop :=
  entries.IsChain fun entry next => entry.2 = "" → IsMark entry.1 ∨ IsMark next.1

/-- Tokens and separators are cut into those tokens and layout.  The induction is on the tokens;
`front` is what is cut already, and behind a word only punctuation may follow at once. -/
theorem exists_cut_of_entries (entries : List (String × String))
    (hentries : ∀ entry ∈ entries, IsTokenText entry.1 ∧ IsSeparator entry.2.toList)
    (hspaced : Spaced entries)
    (hfront : endsInWord false front = true → ∀ entry ∈ entries.head?, IsMark entry.1) :
    ∃ ls, Cut [] front (entryChars entries) ls ∧
      tokenTexts ls = entries.map Prod.fst := by
  induction entries generalizing front with
  | nil => exact ⟨[], .done, rfl⟩
  | cons entry entries ih =>
    obtain ⟨text, sep⟩ := entry
    obtain ⟨⟨htext, hsep⟩, hmore⟩ := List.forall_mem_cons.1 hentries
    have hnext : ∀ next ∈ entries.head?, sep = "" → IsMark text ∨ IsMark next.1 :=
      (List.isChain_cons.1 hspaced).1
    have hbehind : endsInWord false (front ++ text.toList ++ sep.toList) = true →
        ∀ next ∈ entries.head?, IsMark next.1 := by
      intro hword next hmem
      rw [endsInWord_append, endsInWord_append] at hword
      by_cases hempty : sep = ""
      · refine (hnext next hmem hempty).resolve_left fun hmark => ?_
        rw [hempty, hmark.endsInWord] at hword
        cases hword
      · rw [hsep.endsInWord (mt String.toList_eq_nil_iff.1 hempty)] at hword
        cases hword
    obtain ⟨ls, hcut, htexts⟩ := ih hmore hspaced.tail hbehind
    generalize hback : entryChars entries = back at hcut
    have hblank : ∀ c ∈ back.head?, Text.isBlank c = false :=
      hback ▸ isBlank_of_head?_entryChars hmore
    have hbreaks : ¬ IsMark text →
        endsInWord false front = false ∧ Breaks (sep.toList ++ back) := by
      intro hmark
      refine ⟨eq_false_of_ne_true fun hword => hmark (hfront hword _ rfl), ?_⟩
      by_cases hempty : sep = ""
      · rw [hempty, ← hback]
        cases entries with
        | nil =>
          intro c hc
          cases hc
        | cons next entries =>
          have hmarked := (hnext next rfl hempty).resolve_left hmark
          rw [entryChars_cons]
          exact hmarked.breaks
      · exact hsep.breaks (mt String.toList_eq_nil_iff.1 hempty)
    obtain ⟨ls', hcut', htexts'⟩ := hcut.separator hsep hblank
    have hfound : lexemeBetween? front (text.toList ++ (sep.toList ++ back)) =
        some ⟨.token, text.toList⟩ :=
      lexemeFront?_of_isTokenText htext hbreaks
    refine ⟨⟨.token, text.toList⟩ :: ls', ?_, ?_⟩
    · rw [entryChars_cons, hback]
      exact Cut.cons_found (l := ⟨.token, text.toList⟩) hfound hcut'
    · rw [List.map_cons, ← htexts, ← htexts', tokenTexts,
        List.filter_cons_of_pos rfl, List.map_cons, String.ofList_toList]
      rfl

end

/-! ## Texts -/

/-- Lexemes that a text is cut into are the ones that are found in it. -/
theorem Cut.lexemes_eq {front back : List Char} {ls : List Lexeme} (h : Cut [] front back ls) :
    lexemes (endsInWord false front) back = (ls, []) := by
  induction h with
  | done => rw [lexemes]
  | @step front back l ls hfound hlexical _ ih =>
    obtain ⟨kind, chars⟩ := l
    obtain ⟨c, cs, rfl⟩ := List.exists_cons_of_ne_nil hlexical.ne_nil
    rw [endsInWord_append] at ih
    rw [lexemeBetween?, List.cons_append] at hfound
    rw [List.cons_append, lexemes, hfound]
    dsimp only
    rw [List.length_cons, Nat.add_sub_cancel, List.drop_left, ih]

theorem map_text_placeTokens (p : Position) (ls : List Lexeme) :
    (placeTokens p ls).1.map Token.text = tokenTexts ls := by
  induction ls generalizing p with
  | nil => rfl
  | cons l ls ih =>
    rw [placeTokens_cons]
    by_cases hkind : l.kind = .token
    · rw [if_pos hkind, tokenTexts, List.filter_cons_of_pos (by simp [hkind]), List.map_cons,
        List.map_cons, ih]
      rfl
    · rw [if_neg hkind, tokenTexts, List.filter_cons_of_neg (by simp [hkind]), ih]
      rfl

/-- However tokens are laid out, with blanks and comments around them and something between any two
that are no punctuation, they are the tokens of the text. -/
theorem tokenize_layOut (lead : String) (entries : List (String × String))
    (hlead : IsSeparator lead.toList)
    (hentries : ∀ entry ∈ entries, IsTokenText entry.1 ∧ IsSeparator entry.2.toList)
    (hspaced : Spaced entries) :
    ∃ tokens, tokenize (layOut lead entries) = .ok tokens ∧
      tokens.map Token.text = entries.map Prod.fst ++ [""] := by
  have hfront : endsInWord false lead.toList = false := by
    by_cases hempty : lead.toList = []
    · rw [hempty]
      rfl
    · exact hlead.endsInWord hempty false
  obtain ⟨ls, hcut, htexts⟩ := exists_cut_of_entries entries hentries hspaced
    (fun hword => absurd (hfront.symm.trans hword) Bool.false_ne_true)
  obtain ⟨ls', hcut', htexts'⟩ : ∃ ls', Cut [] [] (lead.toList ++ entryChars entries) ls' ∧
      tokenTexts ls' = tokenTexts ls :=
    hcut.separator hlead (isBlank_of_head?_entryChars hentries)
  rw [← toList_layOut] at hcut'
  have hlexemes : lexemes false (layOut lead entries).toList = (ls', []) := hcut'.lexemes_eq
  refine ⟨(placeTokens .start ls').1 ++ [⟨"", (placeTokens .start ls').2⟩], ?_, ?_⟩
  · rw [tokenize, hlexemes]
    rfl
  · rw [List.map_append, map_text_placeTokens, htexts', htexts]
    rfl

end Source

/-- Tokens of every kind; the version has nothing behind it but the semicolon. -/
def Sample.entries : List (String × String) :=
  [("S", "\u2003//b\n"), ("1.2.3-rc.1+b.7", ""), (";", ""), ("12", " "), ("x", "")]

namespace Source

theorem tokenize_layOut_sample : IsSeparator "//a\n ".toList ∧
    (∀ entry ∈ Sample.entries, IsTokenText entry.1 ∧ IsSeparator entry.2.toList) ∧
    Spaced Sample.entries ∧
    ∃ tokens, tokenize (layOut "//a\n " Sample.entries) = .ok tokens ∧
      tokens.map Token.text = ["S", "1.2.3-rc.1+b.7", ";", "12", "x", ""] := by
  have hlead : IsSeparator "//a\n ".toList := by
    show IsSeparator ('/' :: '/' :: (['a'] ++ '\n' :: [' ']))
    exact .comment (List.forall_mem_singleton.2 (by decide)) (.blank (by decide) .done)
  have hmark : IsMark ";" := ⟨';', rfl, rfl⟩
  have hsemicolon : IsTokenText ";" := .mark hmark
  have hversion : IsTokenText "1.2.3-rc.1+b.7" := by
    have hparse : Version.parse "1.2.3-rc.1+b.7" = .ok ⟨1, 2, 3, "rc.1", "b.7"⟩ := by
      decide
    exact .version hparse
  have hbehind : IsSeparator "\u2003//b\n".toList := by
    show IsSeparator ('\u2003' :: '/' :: '/' :: (['b'] ++ '\n' :: []))
    exact .blank (by decide) (.comment (List.forall_mem_singleton.2 (by decide)) .done)
  have hinteger : IsTokenText "12" := by
    refine .integer (by decide) ?_
    show ∀ c ∈ ['1', '2'], c.isDigit = true
    exact List.forall_mem_cons.2 ⟨rfl, List.forall_mem_singleton.2 rfl⟩
  have hspace : IsSeparator " ".toList := by
    show IsSeparator [' ']
    exact .blank (by decide) .done
  have hentries : ∀ entry ∈ Sample.entries, IsTokenText entry.1 ∧ IsSeparator entry.2.toList := by
    simp only [Sample.entries, List.forall_mem_cons]
    exact ⟨⟨.identifier (by decide), hbehind⟩, ⟨hversion, .done⟩, ⟨hsemicolon, .done⟩,
      ⟨hinteger, hspace⟩, ⟨.identifier (by decide), .done⟩, by simp⟩
  have hspaced : Spaced Sample.entries := by
    simp [Spaced, Sample.entries, hmark]
  exact ⟨hlead, hentries, hspaced, tokenize_layOut _ _ hlead hentries hspaced⟩

end Source
end WireCodec
