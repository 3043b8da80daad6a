import WireCodec.Proofs.Patterns

/-!
# The patterns of schema texts

Schema texts are cut by two patterns.  `tokenPattern` says what a text is made of, and
`layoutPattern` which of these pieces are dropped.

* `isWordChar_of_isBreak`         blanks, slashes and punctuation are no word characters;
* `first?_tokenPattern`           the lexeme at the front of a text is what the first pattern takes;
* `fits_layoutPattern_iff`        the second pattern tells layout from tokens.
-/

namespace WireCodec

/-! ## Characters that break words -/

namespace Text

theorem isWordChar_of_isIdentifierStart {c : Char} (h : isIdentifierStart c = true) :
    isWordChar c = true := by
  apply isWordChar_of_isIdentifierRest
  rcases Bool.or_eq_true_iff.1 h with halpha | hunderscore
  · exact Bool.or_eq_true_iff.2 (.inl (Bool.or_eq_true_iff.2 (.inl halpha)))
  · exact Bool.or_eq_true_iff.2 (.inr hunderscore)

/-- No range of `inner` meets one of `outer`. -/
def apart (inner outer : List (Nat × Nat)) : Bool :=
  inner.all fun (first, last) => outer.all fun (first', last') =>
    Nat.blt last first' || Nat.blt last' first

theorem inRanges_of_apart {inner outer : List (Nat × Nat)} {n : Nat}
    (h : apart inner outer = true) (hn : inRanges outer n = true) : inRanges inner n = false := by
  obtain ⟨range', hmem', hrange'⟩ := List.any_eq_true.1 hn
  refine List.any_eq_false.2 fun range hmem hrange => ?_
  have hapart := List.all_eq_true.1 (List.all_eq_true.1 h range hmem) range' hmem'
  simp only [Bool.or_eq_true, Bool.and_eq_true, decide_eq_true_eq, Nat.blt_eq]
    at hrange hrange' hapart
  omega

def asciiWordRanges : List (Nat × Nat) := [(0x30, 0x39), (0x41, 0x5A), (0x5F, 0x5F), (0x61, 0x7A)]

theorem inRanges_of_isAlphanum {c : Char} (h : c.isAlphanum = true) :
    inRanges asciiWordRanges c.toNat = true := by
  have hbounds : 0x41 ≤ c.toNat ∧ c.toNat ≤ 0x5A ∨ 0x61 ≤ c.toNat ∧ c.toNat ≤ 0x7A ∨
      0x30 ≤ c.toNat ∧ c.toNat ≤ 0x39 := by
    rcases Bool.or_eq_true_iff.1 h with halpha | hdigit
    · rcases Bool.or_eq_true_iff.1 halpha with hupper | hlower
      · exact .inl (of_decide_eq_true hupper)
      · obtain ⟨hfirst, hlast⟩ := Bool.and_eq_true_iff.1 hlower
        exact .inr (.inl ⟨of_decide_eq_true hfirst, of_decide_eq_true hlast⟩)
    · obtain ⟨hfirst, hlast⟩ := Bool.and_eq_true_iff.1 hdigit
      exact .inr (.inr ⟨of_decide_eq_true hfirst, of_decide_eq_true hlast⟩)
  simp only [inRanges, asciiWordRanges, List.any_cons, List.any_nil, Bool.or_eq_true,
    Bool.and_eq_true, decide_eq_true_eq, Bool.or_false]
  omega

/-- The blanks, the slash and the punctuation of schema texts. -/
def breakRanges : List (Nat × Nat) :=
  blankRanges ++
    [(0x2F, 0x2F), (0x3B, 0x3B), (0x5B, 0x5B), (0x5D, 0x5D), (0x7B, 0x7B), (0x7D, 0x7D)]

set_option maxRecDepth 10000 in
theorem apart_wordRanges : apart breakRanges wordRanges = true := by
  rfl

theorem inRanges_of_isWordChar {c : Char} (h : isWordChar c = true) :
    inRanges breakRanges c.toNat = false := by
  rcases Bool.or_eq_true_iff.1 h with h | h
  · have hascii : inRanges asciiWordRanges c.toNat = true := by
      rcases Bool.or_eq_true_iff.1 h with h | h
      · exact inRanges_of_isAlphanum h
      · rw [beq_iff_eq.1 h]
        rfl
    exact inRanges_of_apart rfl hascii
  · exact inRanges_of_apart apart_wordRanges h

end Text

namespace Source

/-- A character that ends a word and starts no other: a blank, a slash or punctuation. -/
def isBreak (c : Char) : Bool :=
  Text.isBlank c || c == '/' || isPunctuation c

theorem isWordChar_of_isBreak {c : Char} (h : isBreak c = true) : Text.isWordChar c = false := by
  by_contra hword
  have hout := Text.inRanges_of_isWordChar (eq_true_of_ne_false hword)
  rw [Text.breakRanges, Text.inRanges, List.any_append, Bool.or_eq_false_iff] at hout
  simp only [isBreak, isPunctuation, Bool.or_eq_true, beq_iff_eq] at h
  rcases h with (h | rfl) | (((rfl | rfl) | rfl) | rfl) | rfl
  · exact Bool.false_ne_true (hout.1.symm.trans h)
  all_goals cases hout.2

/-! ## The patterns of schema texts -/

open Pattern

def segmentPattern : Pattern :=
  (one (· == '.')).seq (one isSegmentChar).plus

def buildPattern : Pattern :=
  (one (· == '+')).seq (one isBuildChar).plus

def versionPattern : Pattern :=
  (one Text.isDecimalDigit).plus.seq (segmentPattern.plus.seq buildPattern.optional)

def integerPattern : Pattern :=
  boundary.seq ((one Text.isDecimalDigit).plus.seq boundary)

def identifierPattern : Pattern :=
  boundary.seq ((one Text.isIdentifierStart).seq ((one Text.isIdentifierRest).many.seq boundary))

def commentPattern : Pattern :=
  (one (· == '/')).seq ((one (· == '/')).seq (one (· ≠ '\n')).many)

def layoutPattern : Pattern :=
  commentPattern.either (one Text.isBlank).plus

/-- What a schema text is made of. -/
def tokenPattern : Pattern :=
  versionPattern.either (integerPattern.either ((one isPunctuation).either
    (identifierPattern.either layoutPattern)))

section
variable {front back cs : List Char} {c : Char}

/-! ### Versions -/

theorem isSegmentChar_dot : isSegmentChar '.' = false := by
  decide

theorem dottedSegments_dot (inSegment : Bool) (hc : isSegmentChar c = true) :
    dottedSegments inSegment ('.' :: c :: cs) = '.' :: c :: dottedSegments true cs := by
  rw [dottedSegments, if_pos hc]

theorem dottedSegments_true (cs : List Char) :
    dottedSegments true cs =
      cs.takeWhile isSegmentChar ++ dottedSegments false (cs.dropWhile isSegmentChar) := by
  generalize hopen : true = inSegment
  fun_induction dottedSegments inSegment cs with
  | case1 inSegment c cs hc ih =>
    rw [List.takeWhile_cons_of_neg (by simp [isSegmentChar_dot]),
      List.dropWhile_cons_of_neg (by simp [isSegmentChar_dot])]
    exact (dottedSegments_dot false hc).symm
  | case2 inSegment c cs hc =>
    rw [List.takeWhile_cons_of_neg (by simp [isSegmentChar_dot]),
      List.dropWhile_cons_of_neg (by simp [isSegmentChar_dot]), dottedSegments, if_neg hc]
    rfl
  | case3 inSegment c cs hdot hc ih =>
    rw [Bool.and_eq_true] at hc
    rw [List.takeWhile_cons_of_pos hc.2, List.dropWhile_cons_of_pos hc.2, ih rfl]
    rfl
  | case4 inSegment c cs hdot hc =>
    subst hopen
    rw [Bool.true_and] at hc
    rw [List.takeWhile_cons_of_neg hc, List.dropWhile_cons_of_neg hc, List.nil_append,
      dottedSegments]
    · rfl
    · exact hdot
  | case5 => rfl

theorem exists_of_dottedSegments_ne_nil (h : dottedSegments false cs ≠ []) :
    ∃ c rest, cs = '.' :: c :: rest ∧ isSegmentChar c = true := by
  revert h
  fun_cases dottedSegments false cs with
  | case1 c rest hc => exact fun _ => ⟨c, rest, rfl, hc⟩
  | case2 | case4 | case5 => exact fun h => absurd rfl h
  | case3 c rest _ hc => cases hc

theorem drop_behind_segment :
    ('.' :: c :: cs).drop ('.' :: c :: cs.takeWhile isSegmentChar).length =
      cs.dropWhile isSegmentChar := by
  rw [List.length_cons, List.length_cons, List.drop_succ_cons, List.drop_succ_cons,
    drop_length_takeWhile]

theorem first?_segmentPattern (hc : isSegmentChar c = true) :
    segmentPattern.first? front ('.' :: c :: cs) =
      some ('.' :: c :: cs.takeWhile isSegmentChar) := by
  rw [segmentPattern, first?_seq_one, first?_plus_one, List.takeWhile_cons_of_pos hc]
  rfl

theorem first?_segmentPattern_eq_none (h : dottedSegments false back = []) :
    segmentPattern.first? front back = none := by
  cases back with
  | nil => rfl
  | cons d cs =>
    rw [segmentPattern, first?_seq_one, first?_plus_one]
    by_cases hd : d = '.'
    · subst hd
      cases cs with
      | nil => rfl
      | cons c cs =>
        by_cases hc : isSegmentChar c = true
        · rw [dottedSegments_dot false hc] at h
          cases h
        · rw [List.takeWhile_cons_of_neg hc]
          rfl
    · rw [if_neg (by simpa using hd)]

theorem first?_many_segmentPattern :
    segmentPattern.many.first? front back = some (dottedSegments false back) := by
  induction hlength : back.length using Nat.strong_induction_on generalizing front back with
  | _ n ih =>
  by_cases h : dottedSegments false back = []
  · rw [h, first?_many_of_none (first?_segmentPattern_eq_none h)]
  · obtain ⟨c, cs, rfl, hc⟩ := exists_of_dottedSegments_ne_nil h
    rw [first?_many_of_some (first?_segmentPattern hc) (List.cons_ne_nil _ _)
      (List.cons_ne_nil _ _), drop_behind_segment, ih _ _ rfl, dottedSegments_dot false hc,
      dottedSegments_true]
    · rfl
    · have hle := List.length_dropWhile_le isSegmentChar cs
      rw [← hlength, List.length_cons, List.length_cons]
      omega

theorem first?_plus_segmentPattern : segmentPattern.plus.first? front back =
    if dottedSegments false back = [] then none else some (dottedSegments false back) := by
  split
  · next h => exact first?_seq_of_none (first?_segmentPattern_eq_none h)
  · next h =>
    obtain ⟨c, cs, rfl, hc⟩ := exists_of_dottedSegments_ne_nil h
    rw [plus, first?_seq_of_some (first?_segmentPattern hc) first?_many_segmentPattern,
      drop_behind_segment, dottedSegments_dot false hc, dottedSegments_true]
    rfl

theorem first?_buildPattern :
    buildPattern.optional.first? front back = some (buildMetadata back) := by
  rw [first?_optional]
  cases back with
  | nil => rfl
  | cons c cs =>
    rw [buildPattern, first?_seq_one, first?_plus_one]
    by_cases hc : c = '+'
    · subst hc
      rw [buildMetadata]
      cases cs.takeWhile isBuildChar with
      | nil => rfl
      | cons d build => rfl
    · rw [if_neg (by simpa using hc), buildMetadata]
      · rfl
      · rintro cs heq
        exact hc (List.cons.inj heq).1

theorem first?_versionTail : (segmentPattern.plus.seq buildPattern.optional).first? front back =
    if dottedSegments false back = [] then none
    else some (dottedSegments false back ++
      buildMetadata (back.drop (dottedSegments false back).length)) := by
  split
  · next h => exact first?_seq_of_none (first?_plus_segmentPattern.trans (if_pos h))
  · next h =>
    exact first?_seq_of_some (first?_plus_segmentPattern.trans (if_neg h)) first?_buildPattern

theorem first?_versionPattern : versionPattern.first? front back = versionFront? back := by
  rw [versionPattern, plus, first?_seq_assoc]
  cases back with
  | nil => rfl
  | cons c cs =>
    rw [first?_seq_one]
    by_cases hc : Text.isDecimalDigit c = true
    · have htail : ∀ x d ds, (∀ e ∈ x, Text.isDecimalDigit e = true) →
          Text.isDecimalDigit d = true →
          (segmentPattern.plus.seq buildPattern.optional).first? (front ++ [c] ++ x) (d :: ds) =
            none := by
        intro x d ds _ hd
        rw [first?_versionTail, if_pos]
        by_contra h
        obtain ⟨e, rest, heq, -⟩ := exists_of_dottedSegments_ne_nil h
        cases heq
        cases hd
      rw [if_pos hc, first?_seq_run htail, first?_versionTail, versionFront?,
        List.takeWhile_cons_of_pos hc]
      dsimp only
      rw [List.length_cons, List.drop_succ_cons, drop_length_takeWhile]
      cases dottedSegments false (cs.dropWhile Text.isDecimalDigit) with
      | nil => rfl
      | cons d dotted => simp
    · rw [if_neg hc, versionFront?, List.takeWhile_cons_of_neg hc]

/-! ### Words -/

theorem endsInWord_of_forall {x : List Char} (hfront : endsInWord false front = true)
    (hx : ∀ c ∈ x, Text.isWordChar c = true) : endsInWord false (front ++ x) = true := by
  rw [endsInWord_append, hfront, endsInWord]
  split
  · rfl
  · next c hlast => exact hx c (List.mem_of_getLast? hlast)

theorem first?_word {first more : Char → Bool}
    (hfirst : ∀ c, first c = true → Text.isWordChar c = true)
    (hmore : ∀ c, more c = true → Text.isWordChar c = true) :
    (boundary.seq ((one first).seq ((one more).many.seq boundary))).first? front back =
      if endsInWord false front = true then none else wordFront? first more back := by
  cases back with
  | nil =>
    rw [first?_seq_boundary, first?_seq_one_nil, ite_self]
    exact (ite_self none).symm
  | cons c cs =>
    rw [first?_seq_boundary, first?_seq_one, wordFront?]
    by_cases hc : first c = true
    · have hword := hfirst c hc
      have hend : ∀ x, (∀ d ∈ x, more d = true) → endsInWord false (front ++ [c] ++ x) = true := by
        intro x hx
        refine endsInWord_of_forall ?_ fun d hd => hmore d (hx d hd)
        rw [endsInWord_append]
        exact hword
      have hrun : ∀ x d ds, (∀ e ∈ x, more e = true) → more d = true →
          boundary.first? (front ++ [c] ++ x) (d :: ds) = none := by
        intro x d ds hx hd
        rw [first?_boundary, hend x hx, if_neg]
        simp [endsWord, hmore d hd]
      have hstart : endsWord (c :: cs) = false := by
        simp [endsWord, hword]
      rw [first?_seq_run hrun, first?_boundary, hend _ fun d hd => List.mem_takeWhile_imp hd,
        if_pos hc, hc, Bool.true_and, hstart]
      cases endsInWord false front with
      | true => rfl
      | false =>
        cases endsWord (cs.dropWhile more) with
        | true => simp
        | false => rfl
    · rw [if_neg hc, ite_self, eq_false_of_ne_true hc, Bool.false_and, if_neg Bool.false_ne_true,
        ite_self]

theorem first?_integerPattern : integerPattern.first? front back =
    if endsInWord false front = true then none
    else wordFront? Text.isDecimalDigit Text.isDecimalDigit back := by
  rw [integerPattern, plus, first?_seq_boundary, first?_seq_assoc, ← first?_seq_boundary]
  exact first?_word (fun _ => Text.isWordChar_of_isDecimalDigit)
    fun _ => Text.isWordChar_of_isDecimalDigit

theorem first?_identifierPattern : identifierPattern.first? front back =
    if endsInWord false front = true then none
    else wordFront? Text.isIdentifierStart Text.isIdentifierRest back :=
  first?_word (fun _ => Text.isWordChar_of_isIdentifierStart)
    fun _ => Text.isWordChar_of_isIdentifierRest

/-! ### Layout -/

theorem first?_layoutPattern : layoutPattern.first? front back = layoutFront? back := by
  rw [layoutPattern, first?_either]
  unfold layoutFront?
  split
  · rw [commentPattern, first?_seq_one, first?_seq_one, first?_many_one]
    rfl
  · next hcomment =>
    have hnone : commentPattern.first? front back = none := by
      cases back with
      | nil => rfl
      | cons c cs =>
        rw [commentPattern, first?_seq_one]
        by_cases hc : c = '/'
        · cases cs with
          | nil => exact ite_self none
          | cons d cs =>
            have hd : d ≠ '/' := by
              rintro rfl
              exact hcomment cs (by rw [hc])
            have hsecond : (d == '/') = false := by simpa using hd
            rw [first?_seq_one, hsecond]
            exact ite_self none
        · rw [if_neg (by simpa using hc)]
    rw [hnone, first?_plus_one]
    cases back.takeWhile Text.isBlank with
    | nil => rfl
    | cons c blanks => rfl

/-! ### Lexemes -/

theorem isDecimalDigit_of_isPunctuation (h : isPunctuation c = true) :
    Text.isDecimalDigit c = false := by
  simp only [isPunctuation, Bool.or_eq_true, beq_iff_eq] at h
  rcases h with (((rfl | rfl) | rfl) | rfl) | rfl <;> rfl

theorem tokenFront?_eq_or : tokenFront? (endsInWord false front) back =
    (versionFront? back).or ((integerPattern.first? front back).or
      (((one isPunctuation).first? front back).or (identifierPattern.first? front back))) := by
  rw [first?_integerPattern, first?_identifierPattern]
  unfold tokenFront?
  cases versionFront? back with
  | some version => rfl
  | none =>
    cases back with
    | nil => cases endsInWord false front <;> rfl
    | cons c cs =>
      dsimp only
      rw [first?_one_cons]
      by_cases hc : isPunctuation c = true
      · rw [if_pos hc, if_pos hc, wordFront?, isDecimalDigit_of_isPunctuation hc, Bool.false_and,
          if_neg Bool.false_ne_true, ite_self]
        rfl
      · rw [if_neg hc, if_neg hc]
        cases endsInWord false front with
        | true => rfl
        | false =>
          cases wordFront? Text.isDecimalDigit Text.isDecimalDigit (c :: cs) with
          | none => rfl
          | some digits => rfl

/-- The lexeme at the front of a text is what the pattern takes there. -/
theorem first?_tokenPattern :
    tokenPattern.first? front back = (lexemeBetween? front back).map Lexeme.chars := by
  have hor : tokenPattern.first? front back =
      (tokenFront? (endsInWord false front) back).or (layoutFront? back) := by
    rw [tokenPattern, first?_either, first?_either, first?_either, first?_either,
      first?_versionPattern, first?_layoutPattern, tokenFront?_eq_or]
    simp only [Option.or_assoc]
  rw [hor, lexemeBetween?, lexemeFront?]
  cases tokenFront? (endsInWord false front) back with
  | some chars => rfl
  | none =>
    cases layoutFront? back with
    | none => rfl
    | some chars => rfl

/-! ### Telling layout from tokens -/

theorem isBlank_of_isWordChar (h : Text.isWordChar c = true) : Text.isBlank c = false := by
  by_contra hblank
  have hbreak : isBreak c = true := by
    rw [isBreak, eq_true_of_ne_false hblank]
    rfl
  rw [isWordChar_of_isBreak hbreak] at h
  cases h

theorem ne_slash_of_isWordChar (h : Text.isWordChar c = true) : c ≠ '/' := by
  rintro rfl
  rw [isWordChar_of_isBreak rfl] at h
  cases h

theorem layoutFront?_eq_none (hslash : c ≠ '/') (hblank : Text.isBlank c = false) :
    layoutFront? (c :: cs) = none := by
  unfold layoutFront?
  split
  · next heq => exact absurd (List.cons.inj heq).1 hslash
  · rw [List.takeWhile_cons_of_neg (by simp [hblank])]

theorem layoutFront?_of_isWordChar (h : Text.isWordChar c = true) :
    layoutFront? (c :: cs) = none :=
  layoutFront?_eq_none (ne_slash_of_isWordChar h) (isBlank_of_isWordChar h)

theorem layoutFront?_of_isPunctuation (h : isPunctuation c = true) :
    layoutFront? (c :: cs) = none := by
  simp only [isPunctuation, Bool.or_eq_true, beq_iff_eq] at h
  rcases h with (((rfl | rfl) | rfl) | rfl) | rfl <;> exact layoutFront?_eq_none (by decide) rfl

theorem layoutFront?_of_forall_isBlank {x : List Char} (hne : x ≠ [])
    (h : ∀ d ∈ x, Text.isBlank d = true) : layoutFront? x = some x := by
  unfold layoutFront?
  split
  · have hslash := h '/' List.mem_cons_self
    cases hslash
  · rw [List.takeWhile_eq_self_iff.2 h]
    split
    · exact absurd rfl hne
    · rfl

theorem fits_layoutPattern {x : List Char} (h : layoutFront? x = some x) :
    layoutPattern.fits x = true := by
  rw [← @first?_layoutPattern [] x] at h
  rw [fits, List.contains_iff_mem]
  exact List.mem_of_head? h

theorem not_fits_layoutPattern {x : List Char} (h : layoutFront? x = none) :
    layoutPattern.fits x = false := by
  rw [← @first?_layoutPattern [] x, ← fronts_eq_nil_iff] at h
  rw [fits, h]
  rfl

theorem fits_layoutPattern_iff {l : Lexeme} (h : Lexical front back l) :
    layoutPattern.fits l.chars = true ↔ l.kind = .layout := by
  have htoken : ∀ c cs, Text.isWordChar c = true →
      (layoutPattern.fits (c :: cs) = true ↔ LexemeKind.token = .layout) := by
    intro c cs hc
    rw [not_fits_layoutPattern (layoutFront?_of_isWordChar hc)]
    simp
  cases h with
  | version hne hdigits =>
    obtain ⟨c, digits, rfl⟩ := List.exists_cons_of_ne_nil hne
    exact htoken c _ (Text.isWordChar_of_isDecimalDigit (hdigits c List.mem_cons_self))
  | integer _ hne hdigits =>
    obtain ⟨c, digits, rfl⟩ := List.exists_cons_of_ne_nil hne
    exact htoken c _ (Text.isWordChar_of_isDecimalDigit (hdigits c List.mem_cons_self))
  | identifier _ hc => exact htoken _ _ (Text.isWordChar_of_isIdentifierStart hc)
  | punctuation hc =>
    rw [not_fits_layoutPattern (layoutFront?_of_isPunctuation hc)]
    simp
  | comment hline =>
    refine iff_of_true (fits_layoutPattern ?_) rfl
    rw [layoutFront?, List.takeWhile_eq_self_iff.2 fun c hc => decide_eq_true (hline c hc)]
  | blank hne hblank =>
    exact iff_of_true (fits_layoutPattern (layoutFront?_of_forall_isBlank hne hblank)) rfl

end
end Source
end WireCodec
