import WireCodec.Proofs.Declared

/-!
# Identifiers in Pascal case

Pascal case drops the underscores of a name and capitalizes its words.  What is left begins with a
letter exactly if the first character of the name other than an underscore does.

* `Text.isTypeName`              an upper case letter and characters of identifiers behind it;
* `Text.opensWithLetter`         the first character that is no underscore is a letter;
* `Text.joinWords`               Pascal case in one pass over the characters;
* `Text.isTypeName_pascalCase`   the two conditions meet on identifiers.
-/

namespace WireCodec.Text

/-! ## ASCII characters -/

/-- A fact about ASCII characters is checked on the first 128 code points. -/
theorem of_forall_ascii (P : Char → Prop) (h : ∀ n < 128, P (Char.ofNat n)) {c : Char}
    (hc : c.toNat < 128) : P c := by
  have hn := h c.toNat hc
  rwa [Char.ofNat_toNat] at hn

section
variable {c : Char} {cs : List Char}

theorem isIdentifierRest_of_isAlpha (h : c.isAlpha = true) : isIdentifierRest c = true := by
  simp [isIdentifierRest, Char.isAlphanum, h]

theorem toNat_lt_of_isAlpha (h : c.isAlpha = true) : c.toNat < 128 :=
  toNat_lt_of_isIdentifierRest (isIdentifierRest_of_isAlpha h)

theorem isIdentifierRest_toLower (h : isIdentifierRest c = true) :
    isIdentifierRest c.toLower = true :=
  of_forall_ascii (fun c => isIdentifierRest c = true → isIdentifierRest c.toLower = true)
    (by decide) (toNat_lt_of_isIdentifierRest h) h

theorem isUpper_toUpper (h : isIdentifierRest c = true) : c.toUpper.isUpper = c.isAlpha :=
  of_forall_ascii (fun c => c.toUpper.isUpper = c.isAlpha) (by decide)
    (toNat_lt_of_isIdentifierRest h)

theorem lowerChar_of_isIdentifierRest (h : isIdentifierRest c = true) :
    lowerChar c = [c.toLower] :=
  if_pos (toNat_lt_of_isIdentifierRest h)

theorem lowerChars_eq_map (before : List Char) (h : ∀ c ∈ cs, isIdentifierRest c = true) :
    lowerChars before cs = cs.map Char.toLower := by
  induction cs generalizing before with
  | nil => rfl
  | cons c cs ih =>
    obtain ⟨hc, hcs⟩ := List.forall_mem_cons.1 h
    have hsigma : (c == 'Σ') = false := by
      rw [beq_eq_false_iff_ne]
      rintro rfl
      exact absurd hc (by decide)
    show (if c == 'Σ' then _ else lowerChar c) ++ lowerChars (c :: before) cs = _
    rw [hsigma, lowerChar_of_isIdentifierRest hc, ih (c :: before) hcs]
    rfl

theorem capitalize_true_cons (hc : isIdentifierRest c = true)
    (hcs : ∀ c ∈ cs, isIdentifierRest c = true) :
    capitalize true (c :: cs) = c.toUpper :: cs.map Char.toLower := by
  show upperChar c ++ lowerChars [] cs = _
  rw [upperChar_of_isIdentifierRest hc, lowerChars_eq_map [] hcs]
  rfl

end

/-! ## Type names -/

/-- An upper case letter and behind it letters, digits and underscores, all ASCII. -/
def isTypeName (s : String) : Bool :=
  match s.toList with
  | [] => false
  | c :: cs => c.isUpper && cs.all isIdentifierRest

def opensWithLetter (s : String) : Bool :=
  match s.toList.dropWhile (· = '_') with
  | [] => false
  | c :: _ => c.isAlpha

/-- Words without the underscores between them; `fresh` says that a word begins. -/
def joinWords : Bool → List Char → List Char
  | _, [] => []
  | fresh, c :: cs =>
    if c = '_' then joinWords true cs
    else (if fresh then c.toUpper else c.toLower) :: joinWords false cs

section
variable {cs : List Char}

/-- Capitalizing the pieces between underscores one by one does the same in one pass. -/
theorem joinWords_eq (h : ∀ c ∈ cs, isIdentifierRest c = true) :
    ∃ piece pieces, splitAt '_' cs = piece :: pieces ∧
      (∀ c ∈ piece, isIdentifierRest c = true) ∧
      joinWords false cs = piece.map Char.toLower ++ pieces.flatMap (capitalize true) ∧
      joinWords true cs = capitalize true piece ++ pieces.flatMap (capitalize true) := by
  induction cs with
  | nil => exact ⟨[], [], rfl, by simp, rfl, rfl⟩
  | cons c cs ih =>
    obtain ⟨hc, hcs⟩ := List.forall_mem_cons.1 h
    obtain ⟨piece, pieces, hsplit, hpiece, hfalse, htrue⟩ := ih hcs
    by_cases hunderscore : c = '_'
    · refine ⟨[], piece :: pieces, ?_, by simp, ?_, ?_⟩
      · rw [splitAt, if_pos hunderscore, hsplit]
      · rw [joinWords, if_pos hunderscore, htrue]
        rfl
      · rw [joinWords, if_pos hunderscore, htrue]
        rfl
    · refine ⟨c :: piece, pieces, ?_, List.forall_mem_cons.2 ⟨hc, hpiece⟩, ?_, ?_⟩
      · rw [splitAt, if_neg hunderscore, hsplit]
      · rw [joinWords, if_neg hunderscore, hfalse]
        rfl
      · rw [joinWords, if_neg hunderscore, hfalse, capitalize_true_cons hc hpiece]
        rfl

theorem flatMap_capitalize_splitAt (h : ∀ c ∈ cs, isIdentifierRest c = true) :
    (splitAt '_' cs).flatMap (capitalize true) = joinWords true cs := by
  obtain ⟨piece, pieces, hsplit, -, -, htrue⟩ := joinWords_eq h
  rw [hsplit, htrue, List.flatMap_cons]

theorem isIdentifierRest_of_mem_joinWords (h : ∀ c ∈ cs, isIdentifierRest c = true)
    (fresh : Bool) : ∀ c ∈ joinWords fresh cs, isIdentifierRest c = true := by
  induction cs generalizing fresh with
  | nil => exact List.forall_mem_nil _
  | cons c cs ih =>
    obtain ⟨hc, hcs⟩ := List.forall_mem_cons.1 h
    by_cases hunderscore : c = '_'
    · rw [joinWords, if_pos hunderscore]
      exact ih hcs true
    · rw [joinWords, if_neg hunderscore]
      refine List.forall_mem_cons.2 ⟨?_, ih hcs false⟩
      cases fresh with
      | true => exact (toUpper_of_isIdentifierRest hc).1
      | false => exact isIdentifierRest_toLower hc

/-- Leading underscores are dropped, and what follows them is capitalized. -/
theorem joinWords_true_eq (cs : List Char) :
    joinWords true cs =
      match cs.dropWhile (· = '_') with
      | [] => []
      | c :: rest => c.toUpper :: joinWords false rest := by
  induction cs with
  | nil => rfl
  | cons c cs ih =>
    by_cases hunderscore : c = '_'
    · rw [joinWords, if_pos hunderscore, ih,
        List.dropWhile_cons_of_pos (by simpa using hunderscore)]
    · rw [joinWords, if_neg hunderscore,
        List.dropWhile_cons_of_neg (by simpa using hunderscore)]
      rfl

end

section
variable {s : String}

theorem isTypeName_ofList {cs : List Char} (h : ∀ c ∈ cs, isIdentifierRest c = true) :
    isTypeName (String.ofList cs) = cs.head?.any Char.isUpper := by
  unfold isTypeName
  rw [String.toList_ofList]
  cases cs with
  | nil => rfl
  | cons c cs =>
    show (c.isUpper && cs.all isIdentifierRest) = c.isUpper
    rw [List.all_eq_true.2 (List.forall_mem_cons.1 h).2, Bool.and_true]

theorem exists_cons_of_isIdentifier (h : isIdentifier s = true) (hunderscore : '_' ∉ s.toList) :
    ∃ c cs, s.toList = c :: cs ∧ c.isAlpha = true ∧
      ∀ d ∈ c :: cs, isIdentifierRest d = true ∧ d ≠ '_' := by
  have hrest : ∀ d ∈ s.toList, isIdentifierRest d = true ∧ d ≠ '_' :=
    fun d hd => ⟨isIdentifierRest_of_mem h hd, fun heq => hunderscore (heq ▸ hd)⟩
  unfold isIdentifier at h
  cases hs : s.toList with
  | nil =>
    rw [hs] at h
    cases h
  | cons c cs =>
    rw [hs] at h hrest
    have hstart := (Bool.and_eq_true_iff.1 h).1
    have halpha := (Bool.or_eq_true_iff.1 hstart).resolve_right
      fun heq => (hrest c List.mem_cons_self).2 (eq_of_beq heq)
    exact ⟨c, cs, rfl, halpha, hrest⟩

/-- Pascal case keeps to characters of identifiers, and capitalizes the first one that is no
underscore. -/
theorem exists_pascalCase_eq (h : isIdentifier s = true) :
    ∃ cs, pascalCase s = String.ofList cs ∧ (∀ c ∈ cs, isIdentifierRest c = true) ∧
      cs.head?.any Char.isUpper = opensWithLetter s := by
  have hrest : ∀ c ∈ s.toList, isIdentifierRest c = true :=
    fun c hc => isIdentifierRest_of_mem h hc
  unfold pascalCase opensWithLetter
  by_cases hunderscore : '_' ∈ s.toList
  · rw [if_pos hunderscore, flatMap_capitalize_splitAt hrest]
    refine ⟨_, rfl, isIdentifierRest_of_mem_joinWords hrest true, ?_⟩
    rw [joinWords_true_eq]
    cases hdrop : s.toList.dropWhile (· = '_') with
    | nil => rfl
    | cons c cs =>
      have hmem : c ∈ s.toList := (List.dropWhile_sublist _).subset (hdrop ▸ List.mem_cons_self)
      exact isUpper_toUpper (hrest c hmem)
  · obtain ⟨c, cs, hs, halpha, hall⟩ := exists_cons_of_isIdentifier h hunderscore
    obtain ⟨⟨hc, hne⟩, hcs⟩ := List.forall_mem_cons.1 hall
    have hlowered : ∀ d ∈ (if (s == toUppercase s) = true then lowerChars [] cs else cs),
        isIdentifierRest d = true := by
      rw [lowerChars_eq_map [] fun d hd => (hcs d hd).1]
      split
      · intro d hd
        obtain ⟨e, he, rfl⟩ := List.mem_map.1 hd
        exact isIdentifierRest_toLower (hcs e he).1
      · exact fun d hd => (hcs d hd).1
    rw [if_neg hunderscore, hs, List.dropWhile_cons_of_neg (by simpa using hne)]
    refine ⟨_, rfl, ?_, ?_⟩
    · show ∀ d ∈ upperChar c ++ _, isIdentifierRest d = true
      rw [upperChar_of_isIdentifierRest hc]
      exact List.forall_mem_cons.2 ⟨(toUpper_of_isIdentifierRest hc).1, hlowered⟩
    · show (upperChar c ++ _).head?.any Char.isUpper = c.isAlpha
      rw [upperChar_of_isIdentifierRest hc]
      exact isUpper_toUpper hc

theorem isIdentifierRest_of_mem_pascalCase (h : isIdentifier s = true) :
    ∀ c ∈ (pascalCase s).toList, isIdentifierRest c = true := by
  obtain ⟨cs, hcs, hall, -⟩ := exists_pascalCase_eq h
  rwa [hcs, String.toList_ofList]

/-- In Pascal case an identifier begins with an upper case letter exactly if its first character
other than an underscore is a letter. -/
theorem isTypeName_pascalCase (h : isIdentifier s = true) :
    isTypeName (pascalCase s) = opensWithLetter s := by
  obtain ⟨cs, hcs, hall, hfirst⟩ := exists_pascalCase_eq h
  rw [hcs, isTypeName_ofList hall, hfirst]

theorem isTypeName_escapeKeyword (keywords : List String) (s : String) :
    isTypeName (escapeKeyword keywords s) = isTypeName s := by
  unfold escapeKeyword
  split
  · unfold isTypeName
    rw [String.toList_append]
    cases s.toList with
    | nil => rfl
    | cons c cs => simp [List.all_append, show isIdentifierRest '_' = true from rfl]
  · rfl

end

end WireCodec.Text
