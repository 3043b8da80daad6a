import Mathlib.Data.List.TakeWhile
import Mathlib.Tactic.Common
import WireCodec.Proofs.Offsets
import WireCodec.Source.Compile

/-!
# Lexemes

What is a token, a comment or a run of blanks depends on the text around it: integers and
identifiers stand between word boundaries.

* `Lexical front back l`          the piece `l`, standing between `front` and `back`, is a token, a
                                  comment or a run of blanks;
* `lexemeBetween?_eq_none_iff`    no lexeme is found exactly where none starts;
* `Cut rest front text ls`        `ls` are the lexemes of `text` up to `rest`;
* `Stray front piece rest`        no lexeme starts in `piece`, but one starts behind it;
* `tokenOffsets`                  the tokens among lexemes, each with the byte where it starts;
* `exists_cut_of_tokenize`        a text is cut into lexemes up to a stray piece, and its tokens
                                  stand at the lines and columns of their bytes.
-/

namespace WireCodec

/-! ## Digits are word characters -/

namespace Text

/-- Each range of `inner` lies in one of `outer`; both are gone through in order. -/
def within (inner : List (Nat × Nat)) : List (Nat × Nat) → Bool
  | [] => inner.isEmpty
  | (first, last) :: outer =>
    within (inner.dropWhile fun range => Nat.ble first range.1 && Nat.ble range.2 last) outer

theorem inRanges_of_within {inner outer : List (Nat × Nat)} {n : Nat}
    (h : within inner outer = true) (hn : inRanges inner n = true) : inRanges outer n = true := by
  induction outer generalizing inner with
  | nil =>
    rw [List.isEmpty_iff.1 h] at hn
    exact absurd hn Bool.false_ne_true
  | cons range outer ih =>
    obtain ⟨first, last⟩ := range
    show (decide (first ≤ n) && decide (n ≤ last) || inRanges outer n) = true
    rw [Bool.or_eq_true, Bool.and_eq_true, decide_eq_true_eq, decide_eq_true_eq]
    obtain ⟨range, hmem, hrange⟩ := List.any_eq_true.1 hn
    rw [← List.takeWhile_append_dropWhile
      (p := fun range => Nat.ble first range.1 && Nat.ble range.2 last) (l := inner),
      List.mem_append] at hmem
    rcases hmem with hmem | hmem
    · have hwithin := List.mem_takeWhile_imp hmem
      simp only [Bool.and_eq_true, decide_eq_true_eq, Nat.ble_eq] at hrange hwithin
      exact .inl (by omega)
    · exact .inr (ih h (List.any_eq_true.2 ⟨range, hmem, hrange⟩))

set_option maxRecDepth 10000 in
theorem within_wordRanges : within digitRanges wordRanges = true := by
  rfl

theorem isWordChar_of_isDecimalDigit {c : Char} (h : isDecimalDigit c = true) :
    isWordChar c = true := by
  rcases Bool.or_eq_true_iff.1 h with h | h
  · have halphanum : c.isAlphanum = true := Bool.or_eq_true_iff.2 (.inr h)
    exact Bool.or_eq_true_iff.2 (.inl (Bool.or_eq_true_iff.2 (.inl halphanum)))
  · exact Bool.or_eq_true_iff.2 (.inr (inRanges_of_within within_wordRanges h))

theorem isWordChar_of_isIdentifierRest {c : Char} (h : isIdentifierRest c = true) :
    isWordChar c = true :=
  Bool.or_eq_true_iff.2 (.inl h)

end Text

namespace Source

/-! ## Classes of lexemes -/

def IsDotted (cs : List Char) : Prop :=
  ∃ segments : List (List Char), segments ≠ [] ∧ cs = segments.flatMap ('.' :: ·) ∧
    ∀ segment ∈ segments, segment ≠ [] ∧ ∀ c ∈ segment, isSegmentChar c = true

def IsBuild (cs : List Char) : Prop :=
  cs = [] ∨ ∃ build, build ≠ [] ∧ cs = '+' :: build ∧ ∀ c ∈ build, isBuildChar c = true

/-- A piece of text that is a lexeme where it stands, behind `front` and in front of `back`. -/
inductive Lexical (front back : List Char) : Lexeme → Prop
  | version {digits dotted build : List Char} (hne : digits ≠ [])
      (hdigits : ∀ c ∈ digits, Text.isDecimalDigit c = true) (hdotted : IsDotted dotted)
      (hbuild : IsBuild build) : Lexical front back ⟨.token, digits ++ dotted ++ build⟩
  | integer {digits : List Char} (hfront : endsInWord false front = false) (hne : digits ≠ [])
      (hdigits : ∀ c ∈ digits, Text.isDecimalDigit c = true) (hback : endsWord back = true) :
      Lexical front back ⟨.token, digits⟩
  | punctuation {c : Char} (hc : isPunctuation c = true) : Lexical front back ⟨.token, [c]⟩
  | identifier {c : Char} {chars : List Char} (hfront : endsInWord false front = false)
      (hc : Text.isIdentifierStart c = true)
      (hchars : ∀ d ∈ chars, Text.isIdentifierRest d = true) (hback : endsWord back = true) :
      Lexical front back ⟨.token, c :: chars⟩
  | comment {chars : List Char} (hline : ∀ c ∈ chars, c ≠ '\n') :
      Lexical front back ⟨.layout, '/' :: '/' :: chars⟩
  | blank {chars : List Char} (hne : chars ≠ [])
      (hblank : ∀ c ∈ chars, Text.isBlank c = true) : Lexical front back ⟨.layout, chars⟩

/-- The lexeme `l` starts `back`, where `front` stands in front of it. -/
def LexemeAt (front back : List Char) (l : Lexeme) : Prop :=
  ∃ rest, back = l.chars ++ rest ∧ Lexical front rest l

/-- The lexeme that is taken at the front of `back`, where `front` stands in front of it. -/
def lexemeBetween? (front back : List Char) : Option Lexeme :=
  lexemeFront? (endsInWord false front) back

/-! ## What is found is a lexeme -/

section
variable {cs front back v : List Char} {l : Lexeme}

theorem dottedSegments_isPrefix (inSegment : Bool) (cs : List Char) :
    dottedSegments inSegment cs <+: cs := by
  fun_induction dottedSegments inSegment cs with
  | case1 inSegment c cs hc ih =>
    rw [List.prefix_cons_inj, List.prefix_cons_inj]
    exact ih
  | case3 inSegment c cs _ hc ih =>
    rw [List.prefix_cons_inj]
    exact ih
  | _ => exact List.nil_prefix

/-- A run of segments goes on with the segment in front of it, and then dot by dot. -/
theorem exists_segments (inSegment : Bool) (cs : List Char) :
    ∃ (segment : List Char) (segments : List (List Char)),
      dottedSegments inSegment cs = segment ++ segments.flatMap ('.' :: ·) ∧
      (inSegment = false → segment = []) ∧ (∀ c ∈ segment, isSegmentChar c = true) ∧
      ∀ s ∈ segments, s ≠ [] ∧ ∀ c ∈ s, isSegmentChar c = true := by
  fun_induction dottedSegments inSegment cs with
  | case1 inSegment c cs hc ih =>
    obtain ⟨segment, segments, hcs, -, hsegment, hsegments⟩ := ih
    refine ⟨[], (c :: segment) :: segments, ?_, fun _ => rfl, by simp, ?_⟩
    · simp [hcs]
    · exact List.forall_mem_cons.2
        ⟨⟨List.cons_ne_nil c segment, List.forall_mem_cons.2 ⟨hc, hsegment⟩⟩, hsegments⟩
  | case3 inSegment c cs _ hc ih =>
    rw [Bool.and_eq_true] at hc
    obtain ⟨segment, segments, hcs, -, hsegment, hsegments⟩ := ih
    refine ⟨c :: segment, segments, ?_, ?_, List.forall_mem_cons.2 ⟨hc.2, hsegment⟩, hsegments⟩
    · simp [hcs]
    · intro hfalse
      rw [hfalse] at hc
      exact absurd hc.1 Bool.false_ne_true
  | _ => exact ⟨[], [], rfl, fun _ => rfl, by simp, by simp⟩

theorem isDotted_dottedSegments (h : dottedSegments false cs ≠ []) :
    IsDotted (dottedSegments false cs) := by
  obtain ⟨segment, segments, hcs, hempty, -, hsegments⟩ := exists_segments false cs
  rw [hempty rfl, List.nil_append] at hcs
  refine ⟨segments, ?_, hcs, hsegments⟩
  rintro rfl
  exact h hcs

theorem buildMetadata_isPrefix (cs : List Char) : buildMetadata cs <+: cs := by
  unfold buildMetadata
  split
  · next cs =>
    split
    · exact List.nil_prefix
    · rw [List.prefix_cons_inj]
      exact List.takeWhile_prefix isBuildChar
  · exact List.nil_prefix

theorem isBuild_buildMetadata (cs : List Char) : IsBuild (buildMetadata cs) := by
  unfold buildMetadata
  split
  · next cs =>
    split
    · exact .inl rfl
    · next hne =>
      exact .inr ⟨_, hne, rfl, fun c hc => List.mem_takeWhile_imp hc⟩
  · exact .inl rfl

theorem lexemeAt_of_versionFront? (h : versionFront? cs = some v) :
    LexemeAt front cs ⟨.token, v⟩ := by
  unfold versionFront? at h
  split at h
  · cases h
  next hdigits =>
  dsimp only at h
  split at h
  · cases h
  next hdotted =>
  cases h
  have hcs := List.prefix_iff_eq_append.1 (List.takeWhile_prefix (l := cs) Text.isDecimalDigit)
  generalize cs.drop (cs.takeWhile Text.isDecimalDigit).length = rest at hdotted hcs ⊢
  have hrest := List.prefix_iff_eq_append.1 (dottedSegments_isPrefix false rest)
  generalize rest.drop (dottedSegments false rest).length = more at hrest ⊢
  obtain ⟨behind, hmore⟩ := buildMetadata_isPrefix more
  refine ⟨behind, ?_, .version hdigits (fun c hc => List.mem_takeWhile_imp hc)
    (isDotted_dottedSegments hdotted) (isBuild_buildMetadata more)⟩
  show cs = cs.takeWhile Text.isDecimalDigit ++ dottedSegments false rest ++
    buildMetadata more ++ behind
  rw [List.append_assoc, hmore, List.append_assoc, hrest]
  exact hcs.symm

theorem exists_of_wordFront? {first more : Char → Bool} (h : wordFront? first more cs = some v) :
    ∃ c chars rest, cs = v ++ rest ∧ v = c :: chars ∧ first c = true ∧
      (∀ d ∈ chars, more d = true) ∧ endsWord rest = true := by
  unfold wordFront? at h
  split at h
  · cases h
  next c cs =>
  split at h
  · next hc =>
    cases h
    rw [Bool.and_eq_true] at hc
    refine ⟨c, cs.takeWhile more, cs.dropWhile more, ?_, rfl, hc.1,
      fun d hd => List.mem_takeWhile_imp hd, hc.2⟩
    rw [List.cons_append, List.takeWhile_append_dropWhile]
  · cases h

theorem lexemeAt_of_tokenFront? (h : tokenFront? (endsInWord false front) cs = some v) :
    LexemeAt front cs ⟨.token, v⟩ := by
  unfold tokenFront? at h
  split at h
  · next hversion =>
    cases h
    exact lexemeAt_of_versionFront? hversion
  split at h
  · cases h
  next c cs _ =>
  split at h
  · next hc =>
    cases h
    exact ⟨cs, rfl, .punctuation hc⟩
  split at h
  · cases h
  next hfront =>
  rw [Bool.not_eq_true] at hfront
  split at h
  · next hdigits =>
    cases h
    obtain ⟨d, chars, rest, hcs, rfl, hd, hchars, hrest⟩ := exists_of_wordFront? hdigits
    exact ⟨rest, hcs, .integer hfront (List.cons_ne_nil d chars)
      (List.forall_mem_cons.2 ⟨hd, hchars⟩) hrest⟩
  · obtain ⟨d, chars, rest, hcs, rfl, hd, hchars, hrest⟩ := exists_of_wordFront? h
    exact ⟨rest, hcs, .identifier hfront hd hchars hrest⟩

theorem lexemeAt_of_layoutFront? (h : layoutFront? cs = some v) :
    LexemeAt front cs ⟨.layout, v⟩ := by
  unfold layoutFront? at h
  split at h
  · next cs =>
    cases h
    refine ⟨cs.dropWhile (· ≠ '\n'), ?_, .comment ?_⟩
    · rw [List.cons_append, List.cons_append, List.takeWhile_append_dropWhile]
    · intro c hc
      have hne := List.mem_takeWhile_imp hc
      exact of_decide_eq_true hne
  split at h
  · cases h
  next hblanks =>
  cases h
  refine ⟨cs.dropWhile Text.isBlank, ?_, .blank hblanks fun c hc => List.mem_takeWhile_imp hc⟩
  rw [List.takeWhile_append_dropWhile]

theorem lexemeAt_of_lexemeBetween? (h : lexemeBetween? front back = some l) :
    LexemeAt front back l := by
  unfold lexemeBetween? lexemeFront? at h
  split at h
  · next htoken =>
    cases h
    exact lexemeAt_of_tokenFront? htoken
  · obtain ⟨v, hv, rfl⟩ := Option.map_eq_some_iff.1 h
    exact lexemeAt_of_layoutFront? hv

theorem Lexical.ne_nil (h : Lexical front back l) : l.chars ≠ [] := by
  cases h with
  | version hne => simp [hne]
  | integer _ hne => exact hne
  | blank hne => exact hne
  | punctuation | identifier | comment => exact List.cons_ne_nil _ _

/-! ## What is a lexeme is found -/

theorem versionFront?_ne_none {digits dotted more : List Char} (hne : digits ≠ [])
    (hdigits : ∀ c ∈ digits, Text.isDecimalDigit c = true) (hdotted : IsDotted dotted) :
    versionFront? (digits ++ (dotted ++ more)) ≠ none := by
  obtain ⟨segments, hsegments, rfl, hall⟩ := hdotted
  obtain ⟨segment, segments, rfl⟩ := List.exists_cons_of_ne_nil hsegments
  obtain ⟨hsegment, hchars⟩ := hall segment List.mem_cons_self
  obtain ⟨c, segment, rfl⟩ := List.exists_cons_of_ne_nil hsegment
  have hc := hchars c List.mem_cons_self
  generalize hrest : segment ++ (segments.flatMap ('.' :: ·) ++ more) = rest
  have htext : ((c :: segment) :: segments).flatMap ('.' :: ·) ++ more = '.' :: c :: rest := by
    rw [← hrest]
    simp
  have hdot : Text.isDecimalDigit '.' = false := rfl
  have htake : (digits ++ '.' :: c :: rest).takeWhile Text.isDecimalDigit = digits := by
    rw [List.takeWhile_append_of_pos hdigits, List.takeWhile_cons_of_neg (by simp [hdot]),
      List.append_nil]
  rw [htext]
  unfold versionFront?
  rw [htake]
  split
  · exact absurd rfl hne
  · simp [dottedSegments, hc]

/-- Where a word ends, the run of its characters ends. -/
theorem wordFront?_ne_none {first more : Char → Bool} {c : Char} {chars : List Char}
    (hword : ∀ d, more d = true → Text.isWordChar d = true) (hc : first c = true)
    (hchars : ∀ d ∈ chars, more d = true) (hback : endsWord back = true) :
    wordFront? first more (c :: (chars ++ back)) ≠ none := by
  have hdrop : (chars ++ back).dropWhile more = back := by
    rw [List.dropWhile_append_of_pos hchars]
    cases back with
    | nil => rfl
    | cons d back =>
      refine List.dropWhile_cons_of_neg fun hd => ?_
      have hnot : (!Text.isWordChar d) = true := hback
      rw [hword d hd] at hnot
      exact Bool.noConfusion hnot
  show (if (first c && endsWord ((chars ++ back).dropWhile more)) = true then _ else none) ≠ none
  rw [hdrop, hc, hback]
  exact Option.some_ne_none _

theorem layoutFront?_ne_none {c : Char} (hc : Text.isBlank c = true) :
    layoutFront? (c :: cs) ≠ none := by
  unfold layoutFront?
  split
  · exact Option.some_ne_none _
  · rw [List.takeWhile_cons_of_pos hc]
    exact Option.some_ne_none _

theorem all_eq_none (h : lexemeBetween? front back = none) :
    versionFront? back = none ∧ (∀ c rest, back = c :: rest → isPunctuation c = false) ∧
      (endsInWord false front = false →
        wordFront? Text.isDecimalDigit Text.isDecimalDigit back = none ∧
        wordFront? Text.isIdentifierStart Text.isIdentifierRest back = none) ∧
      layoutFront? back = none := by
  unfold lexemeBetween? lexemeFront? at h
  split at h
  · cases h
  next htoken =>
  unfold tokenFront? at htoken
  split at htoken
  · cases htoken
  next hversion =>
  refine ⟨hversion, ?_, ?_, Option.map_eq_none_iff.1 h⟩
  · rintro c rest rfl
    by_contra hc
    rw [Bool.not_eq_false] at hc
    simp [hc] at htoken
  · intro hfront
    rw [hfront] at htoken
    cases back with
    | nil => exact ⟨rfl, rfl⟩
    | cons c rest =>
      dsimp only at htoken
      split at htoken
      · cases htoken
      split at htoken
      · next hfalse => exact absurd hfalse Bool.false_ne_true
      split at htoken
      · cases htoken
      · next hdigits => exact ⟨hdigits, htoken⟩

/-- No lexeme is found exactly where none starts. -/
theorem lexemeBetween?_eq_none_iff :
    lexemeBetween? front back = none ↔ ∀ l, ¬ LexemeAt front back l := by
  constructor
  · rintro h l ⟨rest, rfl, hlexical⟩
    obtain ⟨hversion, hpunctuation, hwords, hlayout⟩ := all_eq_none h
    cases hlexical with
    | version hne hdigits hdotted hbuild =>
      rw [List.append_assoc, List.append_assoc] at hversion
      exact versionFront?_ne_none hne hdigits hdotted hversion
    | integer hfront hne hdigits hback =>
      obtain ⟨c, digits, rfl⟩ := List.exists_cons_of_ne_nil hne
      obtain ⟨hc, hdigits⟩ := List.forall_mem_cons.1 hdigits
      exact wordFront?_ne_none (fun _ => Text.isWordChar_of_isDecimalDigit) hc hdigits hback
        (hwords hfront).1
    | punctuation hc =>
      rw [hpunctuation _ _ rfl] at hc
      exact Bool.noConfusion hc
    | identifier hfront hc hchars hback =>
      exact wordFront?_ne_none (fun _ => Text.isWordChar_of_isIdentifierRest) hc hchars hback
        (hwords hfront).2
    | comment hline => cases hlayout
    | blank hne hblank =>
      obtain ⟨c, chars, rfl⟩ := List.exists_cons_of_ne_nil hne
      exact layoutFront?_ne_none (hblank c List.mem_cons_self) hlayout
  · intro h
    cases hl : lexemeBetween? front back with
    | none => rfl
    | some l => exact absurd (lexemeAt_of_lexemeBetween? hl) (h l)

/-! ## Cutting a text -/

/-- The lexemes `ls` are found in `text` one after the other, behind `front` and up to `rest`. -/
inductive Cut (rest : List Char) : (front text : List Char) → List Lexeme → Prop
  | done {front : List Char} : Cut rest front rest []
  | step {front text : List Char} {l : Lexeme} {ls : List Lexeme}
      (hfound : lexemeBetween? front (l.chars ++ text) = some l) (hlexical : Lexical front text l)
      (hmore : Cut rest (front ++ l.chars) text ls) : Cut rest front (l.chars ++ text) (l :: ls)

/-- No lexeme starts in `piece`, but one starts behind it unless the text ends there. -/
structure Stray (front piece rest : List Char) : Prop where
  inside : ∀ x y, piece = x ++ y → y ≠ [] → ∀ l, ¬ LexemeAt (front ++ x) (y ++ rest) l
  behind : rest ≠ [] → ∃ l, LexemeAt (front ++ piece) rest l

variable {text rest : List Char} {ls : List Lexeme}

theorem Cut.eq_append (h : Cut rest front text ls) : text = ls.flatMap Lexeme.chars ++ rest := by
  induction h with
  | done => rfl
  | step _ _ _ ih => rw [List.flatMap_cons, List.append_assoc, ← ih]

theorem Cut.ne_nil (h : Cut rest front text ls) : ∀ l ∈ ls, l.chars ≠ [] := by
  induction h with
  | done => simp
  | step _ hlexical _ ih => exact List.forall_mem_cons.2 ⟨hlexical.ne_nil, ih⟩

theorem endsInWord_append (before : Bool) (xs ys : List Char) :
    endsInWord before (xs ++ ys) = endsInWord (endsInWord before xs) ys := by
  unfold endsInWord
  rw [List.getLast?_append]
  cases ys.getLast? with
  | none => rfl
  | some c => rfl

theorem stray_nil (h : rest ≠ [] → ∃ l, LexemeAt front rest l) : Stray front [] rest where
  inside := fun _ _ hxy hy => absurd (List.append_eq_nil_iff.1 hxy.symm).2 hy
  behind := by rwa [List.append_nil]

theorem stray_gap (front cs : List Char) :
    ∃ rest, cs = gap (endsInWord false front) cs ++ rest ∧
      Stray front (gap (endsInWord false front) cs) rest := by
  induction cs generalizing front with
  | nil =>
    exact ⟨[], rfl, stray_nil fun hne => absurd rfl hne⟩
  | cons c cs ih =>
    unfold gap
    split
    · next l hl =>
      exact ⟨c :: cs, rfl, stray_nil fun _ => ⟨l, lexemeAt_of_lexemeBetween? hl⟩⟩
    · next hnone =>
      have hword : Text.isWordChar c = endsInWord false (front ++ [c]) := by
        rw [endsInWord_append]
        rfl
      obtain ⟨rest, hcs, hinside, hbehind⟩ := ih (front ++ [c])
      rw [← hword] at hcs hinside hbehind
      refine ⟨rest, by rw [List.cons_append, ← hcs], ?_, ?_⟩
      · intro x y hxy hy
        cases x with
        | nil =>
          rw [List.nil_append] at hxy
          rw [List.append_nil, ← hxy, List.cons_append, ← hcs]
          exact lexemeBetween?_eq_none_iff.1 hnone
        | cons d x =>
          obtain ⟨rfl, hgap⟩ := List.cons_eq_cons.1 hxy
          have hnot := hinside x y hgap hy
          rwa [List.append_assoc] at hnot
      · rwa [List.append_assoc] at hbehind

/-- A text is cut into lexemes up to a stray piece. -/
theorem cut_lexemes (front cs : List Char) (ls : List Lexeme) (unread : List Char)
    (h : lexemes (endsInWord false front) cs = (ls, unread)) :
    ∃ rest, Cut (unread ++ rest) front cs ls ∧
      Stray (front ++ ls.flatMap Lexeme.chars) unread rest ∧ (unread = [] → rest = []) := by
  generalize hword : endsInWord false front = afterWord at h
  -- Behind a lexeme the cut goes on with a longer `front`, whose end decides about word boundaries.
  fun_induction lexemes afterWord cs generalizing front ls with
  | case1 afterWord =>
    cases h
    exact ⟨[], .done, stray_nil fun hne => absurd rfl hne, fun _ => rfl⟩
  | case2 afterWord c cs hnone =>
    cases h
    subst hword
    obtain ⟨rest, hcs, hstray⟩ := stray_gap front (c :: cs)
    refine ⟨rest, ?_, ?_, ?_⟩
    · rw [← hcs]
      exact .done
    · rwa [List.flatMap_nil, List.append_nil]
    · intro hnil
      simp [gap, hnone] at hnil
  | case3 afterWord c cs l hl more unread' hmore ih =>
    cases h
    subst hword
    obtain ⟨back, hback, hlexical⟩ := lexemeAt_of_lexemeBetween? hl
    obtain ⟨d, chars, hchars⟩ := List.exists_cons_of_ne_nil hlexical.ne_nil
    have hdrop : cs.drop (l.chars.length - 1) = back := by
      rw [hchars] at hback ⊢
      rw [(List.cons_eq_cons.1 hback).2]
      exact List.drop_left
    rw [hdrop] at hmore ih
    obtain ⟨rest, hcut, hstray, hnil⟩ :=
      ih (front ++ l.chars) more (endsInWord_append false front l.chars) hmore
    refine ⟨rest, ?_, ?_, hnil⟩
    · rw [hback] at hl ⊢
      exact .step hl hlexical hcut
    · rwa [List.append_assoc, ← List.flatMap_cons] at hstray

end

/-! ## Tokens by byte offsets -/

/-- The texts of the tokens among lexemes that start at a byte offset, each with its own offset,
and the end marker. -/
def tokenOffsets (offset : Nat) : List Lexeme → List (String × Nat)
  | [] => [("", offset)]
  | l :: ls =>
    let text := String.ofList l.chars
    let behind := tokenOffsets (offset + text.utf8ByteSize) ls
    if l.kind = .token then (text, offset) :: behind else behind

def tokenAt (text : String) (entry : String × Nat) : Token :=
  ⟨entry.1, .atOffset text entry.2⟩

section
variable {text : String} {ls : List Lexeme} {front back : List Char}

theorem advance_append (p : Position) (xs ys : List Char) :
    p.advance (xs ++ ys) = (p.advance xs).advance ys :=
  List.foldl_append

theorem utf8ByteSize_ofList_append (xs ys : List Char) :
    (String.ofList (xs ++ ys)).utf8ByteSize =
      (String.ofList xs).utf8ByteSize + (String.ofList ys).utf8ByteSize := by
  rw [String.ofList_append, String.utf8ByteSize_append]

theorem placeTokens_cons (p : Position) (l : Lexeme) (ls : List Lexeme) :
    placeTokens p (l :: ls) =
      (if l.kind = .token then
        (⟨String.ofList l.chars, p⟩ :: (placeTokens (p.advance l.chars) ls).1,
          (placeTokens (p.advance l.chars) ls).2)
      else placeTokens (p.advance l.chars) ls) := by
  obtain ⟨kind, chars⟩ := l
  cases kind with
  | token => rfl
  | layout => rfl

theorem placeTokens_snd (p : Position) (ls : List Lexeme) :
    (placeTokens p ls).2 = p.advance (ls.flatMap Lexeme.chars) := by
  induction ls generalizing p with
  | nil => rfl
  | cons l ls ih =>
    rw [List.flatMap_cons, advance_append, ← ih, placeTokens_cons]
    split <;> rfl

theorem placeTokens_eq_map (h : text.toList = front ++ (ls.flatMap Lexeme.chars ++ back)) :
    (placeTokens (Position.start.advance front) ls).1 ++
        [⟨"", (placeTokens (Position.start.advance front) ls).2⟩] =
      (tokenOffsets (String.ofList front).utf8ByteSize ls).map (tokenAt text) := by
  induction ls generalizing front with
  | nil =>
    show [Token.mk "" (Position.start.advance front)] = [Token.mk "" (.atOffset text _)]
    rw [atOffset_utf8ByteSize h]
  | cons l ls ih =>
    have hfront := atOffset_utf8ByteSize h
    rw [List.flatMap_cons, List.append_assoc, ← List.append_assoc] at h
    have hmore := ih h
    rw [advance_append, utf8ByteSize_ofList_append] at hmore
    rw [placeTokens_cons, tokenOffsets]
    by_cases hkind : l.kind = .token
    · rw [if_pos hkind, if_pos hkind, List.map_cons, ← hmore, tokenAt, hfront]
      rfl
    · rw [if_neg hkind, if_neg hkind, ← hmore]

/-- An entry of the tokens stands in the text at its offset; the end marker stands at the end. -/
theorem exists_of_mem_tokenOffsets {entry : String × Nat} (hls : ∀ l ∈ ls, l.chars ≠ [])
    (h : entry ∈ tokenOffsets (String.ofList front).utf8ByteSize ls) :
    ∃ before behind, front ++ ls.flatMap Lexeme.chars = before ++ entry.1.toList ++ behind ∧
      entry.2 = (String.ofList before).utf8ByteSize ∧ (entry.1 = "" → behind = []) := by
  induction ls generalizing front with
  | nil =>
    rw [List.mem_singleton.1 h]
    exact ⟨front, [], by simp, rfl, fun _ => rfl⟩
  | cons l ls ih =>
    obtain ⟨hl, hls⟩ := List.forall_mem_cons.1 hls
    have hmore : entry ∈ tokenOffsets (String.ofList (front ++ l.chars)).utf8ByteSize ls →
        ∃ before behind, front ++ (l :: ls).flatMap Lexeme.chars =
            before ++ entry.1.toList ++ behind ∧
          entry.2 = (String.ofList before).utf8ByteSize ∧ (entry.1 = "" → behind = []) := by
      intro hmem
      have hbehind := ih hls hmem
      rwa [List.append_assoc] at hbehind
    rw [utf8ByteSize_ofList_append] at hmore
    rw [tokenOffsets] at h
    by_cases hkind : l.kind = .token
    · rw [if_pos hkind, List.mem_cons] at h
      rcases h with rfl | h
      · refine ⟨front, ls.flatMap Lexeme.chars, ?_, rfl, ?_⟩
        · rw [String.toList_ofList, List.flatMap_cons, List.append_assoc]
        · intro hempty
          exact absurd (String.ofList_eq_empty_iff.1 hempty) hl
      · exact hmore h
    · rw [if_neg hkind] at h
      exact hmore h

/-- A text has tokens if it is cut into lexemes up to its end; otherwise the stray piece behind
them is a fault. -/
theorem exists_cut_of_tokenize (text : String) :
    ∃ ls piece rest, Cut (piece ++ rest) [] text.toList ls ∧
      Stray (ls.flatMap Lexeme.chars) piece rest ∧ (piece = [] → rest = []) ∧
      tokenize text =
        if piece = [] then .ok ((tokenOffsets 0 ls).map (tokenAt text))
        else .error (.parse (.noToken (String.ofList piece))
          (.atOffset text (String.ofList (ls.flatMap Lexeme.chars)).utf8ByteSize)) := by
  rcases hlexemes : lexemes false text.toList with ⟨ls, piece⟩
  have htokenize : tokenize text =
      if piece = [] then .ok ((placeTokens .start ls).1 ++ [⟨"", (placeTokens .start ls).2⟩])
      else .error (.parse (.noToken (String.ofList piece)) (placeTokens .start ls).2) := by
    unfold tokenize
    rw [hlexemes]
  obtain ⟨rest, hcut, hstray, hnil⟩ := cut_lexemes [] text.toList ls piece hlexemes
  have htext := hcut.eq_append
  have htokens : (placeTokens .start ls).1 ++ [⟨"", (placeTokens .start ls).2⟩] =
      (tokenOffsets 0 ls).map (tokenAt text) :=
    @placeTokens_eq_map text ls [] (piece ++ rest) htext
  rw [htokens, placeTokens_snd, ← atOffset_utf8ByteSize htext] at htokenize
  exact ⟨ls, piece, rest, hcut, hstray, hnil, htokenize⟩

end
end Source
end WireCodec
