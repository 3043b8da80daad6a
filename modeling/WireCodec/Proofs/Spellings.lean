import WireCodec.Proofs.Casing

/-!
# Spellings of a name in Pascal case

Names that differ in letter case and underscores are written alike in Pascal case.  Given the words
that a type name is made of, the names that it is written for can be listed.

* `Text.nameWords s`          the words of a name with underscores, in lower case;
* `Text.Spelling words n`     the ways to write a name of several words;
* `Text.flatMap_capitalize_eq_iff`   capitals show where words begin;
* `Text.pascalCase_eq_iff`    spellings of words are the names that Pascal case writes like them.
-/

namespace WireCodec.Text

/-- The words of a name in lower case: its pieces between underscores, without the empty ones. -/
def nameWords (s : String) : List String :=
  ((splitAt '_' s.toList).filter (· ≠ [])).map fun w => String.ofList (w.map Char.toLower)

def capitalized (words : List String) : String :=
  String.ofList (words.flatMap fun w => capitalize false w.toList)

/-- Words run together, with a capital for each but the first. -/
def camelCased : List String → String
  | [] => ""
  | w :: words => w ++ capitalized words

/-- The ways to write a name of words in lower case: with underscores between the words, and around
them, in any letter case; run together, with capitals at the words, the first of which may be left
out; and a single word all in capitals. -/
def Spelling (words : List String) (n : String) : Prop :=
  if '_' ∈ n.toList then nameWords n = words
  else n = capitalized words ∨ n = camelCased words ∨ ∃ w, words = [w] ∧ n = toUppercase w

instance (words : List String) (n : String) : Decidable (∃ w, words = [w] ∧ n = toUppercase w) :=
  decidable_of_iff (∃ w ∈ words, words = [w] ∧ n = toUppercase w)
    ⟨fun ⟨w, _, h⟩ => ⟨w, h⟩, fun ⟨w, hw, hn⟩ => ⟨w, hw ▸ List.mem_cons_self, hw, hn⟩⟩

instance (words : List String) (n : String) : Decidable (Spelling words n) :=
  inferInstanceAs (Decidable (if '_' ∈ n.toList then nameWords n = words
    else n = capitalized words ∨ n = camelCased words ∨ ∃ w, words = [w] ∧ n = toUppercase w))

section
variable {c d : Char}

theorem isAlpha_of_isUpper (h : c.isUpper = true) : c.isAlpha = true :=
  Bool.or_eq_true_iff.2 (.inl h)

theorem isAlpha_of_isLower (h : c.isLower = true) : c.isAlpha = true :=
  Bool.or_eq_true_iff.2 (.inr h)

theorem toLower_toUpper (h : isIdentifierRest c = true) : c.toUpper.toLower = c.toLower :=
  of_forall_ascii (fun c => c.toUpper.toLower = c.toLower) (by decide)
    (toNat_lt_of_isIdentifierRest h)

theorem toUpper_toLower (h : isIdentifierRest c = true) : c.toLower.toUpper = c.toUpper :=
  of_forall_ascii (fun c => c.toLower.toUpper = c.toUpper) (by decide)
    (toNat_lt_of_isIdentifierRest h)

theorem toUpper_toUpper (h : isIdentifierRest c = true) : c.toUpper.toUpper = c.toUpper :=
  of_forall_ascii (fun c => c.toUpper.toUpper = c.toUpper) (by decide)
    (toNat_lt_of_isIdentifierRest h)

theorem isUpper_toLower (h : isIdentifierRest c = true) : c.toLower.isUpper = false :=
  of_forall_ascii (fun c => c.toLower.isUpper = false) (by decide)
    (toNat_lt_of_isIdentifierRest h)

theorem cases_of_isLower (h : c.isLower = true) :
    c.toLower = c ∧ c.toUpper ≠ c ∧ c.toUpper.isUpper = true ∧ c.toUpper.isLower = false :=
  of_forall_ascii (fun c => c.isLower = true →
    c.toLower = c ∧ c.toUpper ≠ c ∧ c.toUpper.isUpper = true ∧ c.toUpper.isLower = false)
    (by decide) (toNat_lt_of_isAlpha (isAlpha_of_isLower h)) h

theorem eq_of_toUpper_eq (hc : c.isAlpha = true) (hd : d.isLower = true)
    (h : c.toUpper = d.toUpper) : c = d.toUpper ∨ c = d := by
  have hcases : c.toUpper = c ∨ c.toLower = c :=
    of_forall_ascii (fun c => c.isAlpha = true → c.toUpper = c ∨ c.toLower = c) (by decide)
      (toNat_lt_of_isAlpha hc) hc
  rcases hcases with hupper | hlower
  · exact .inl (hupper.symm.trans h)
  · right
    calc c = c.toLower := hlower.symm
      _ = c.toUpper.toLower := (toLower_toUpper (isIdentifierRest_of_isAlpha hc)).symm
      _ = d.toUpper.toLower := by rw [h]
      _ = d.toLower := toLower_toUpper (isIdentifierRest_of_isAlpha (isAlpha_of_isLower hd))
      _ = d := (cases_of_isLower hd).1

theorem isAlpha_of_cases (h : isIdentifierRest c = true)
    (halpha : c.toUpper.isAlpha = true ∨ c.toLower.isAlpha = true) : c.isAlpha = true :=
  of_forall_ascii
    (fun c => c.toUpper.isAlpha = true ∨ c.toLower.isAlpha = true → c.isAlpha = true) (by decide)
    (toNat_lt_of_isIdentifierRest h) halpha

end

section
variable {us ws : List (List Char)}

def IsLowerWord (w : List Char) : Prop := w ≠ [] ∧ ∀ c ∈ w, c.isLower = true

theorem capitalize_false_cons {c : Char} (cs : List Char) (h : c.isLower = true) :
    capitalize false (c :: cs) = c.toUpper :: cs := by
  show upperChar c ++ cs = _
  rw [upperChar_of_isIdentifierRest (isIdentifierRest_of_isAlpha (isAlpha_of_isLower h))]
  rfl

theorem head?_flatMap_capitalize (h : ∀ w ∈ ws, IsLowerWord w) :
    ∀ c ∈ (ws.flatMap (capitalize false)).head?, c.isUpper = true ∧ c.isLower = false := by
  cases ws with
  | nil => exact fun c hc => by cases hc
  | cons w ws =>
    obtain ⟨hne, hlower⟩ := h w List.mem_cons_self
    cases w with
    | nil => exact absurd rfl hne
    | cons d ds =>
      have hd := hlower d List.mem_cons_self
      rw [List.flatMap_cons, capitalize_false_cons ds hd]
      intro c hc
      cases hc
      exact (cases_of_isLower hd).2.2

theorem isAlpha_of_mem_flatMap (h : ∀ w ∈ ws, IsLowerWord w) :
    ∀ c ∈ ws.flatMap (capitalize false), c.isAlpha = true := by
  intro c hc
  obtain ⟨w, hw, hc⟩ := List.mem_flatMap.1 hc
  obtain ⟨-, hlower⟩ := h w hw
  cases w with
  | nil => cases hc
  | cons d ds =>
    obtain ⟨hd, hds⟩ := List.forall_mem_cons.1 hlower
    rw [capitalize_false_cons ds hd] at hc
    rcases List.mem_cons.1 hc with rfl | hc
    · exact isAlpha_of_isUpper (cases_of_isLower hd).2.2.1
    · exact isAlpha_of_isLower (hds c hc)

/-- Two texts of small letters end where no small letter follows. -/
theorem append_inj_of_isLower {a b r r' : List Char} (ha : ∀ c ∈ a, c.isLower = true)
    (hb : ∀ c ∈ b, c.isLower = true) (hr : ∀ c ∈ r.head?, c.isLower = false)
    (hr' : ∀ c ∈ r'.head?, c.isLower = false) (h : a ++ r = b ++ r') : a = b ∧ r = r' := by
  induction a generalizing b with
  | nil =>
    cases b with
    | nil => exact ⟨rfl, h⟩
    | cons d b =>
      have hhead := hr d (by rw [show r = d :: (b ++ r') from h]; rfl)
      rw [hb d List.mem_cons_self] at hhead
      cases hhead
  | cons c a ih =>
    cases b with
    | nil =>
      have hhead := hr' c (by rw [← show c :: (a ++ r) = r' from h]; rfl)
      rw [ha c List.mem_cons_self] at hhead
      cases hhead
    | cons d b =>
      obtain ⟨hcd, htail⟩ := List.cons.inj h
      obtain ⟨hab, hrest⟩ := ih (List.forall_mem_cons.1 ha).2 (List.forall_mem_cons.1 hb).2 htail
      exact ⟨by rw [hcd, hab], hrest⟩

theorem eq_of_toUpper_eq_of_isLower {c d : Char} (hc : c.isLower = true) (hd : d.isLower = true)
    (h : c.toUpper = d.toUpper) : c = d := by
  refine (eq_of_toUpper_eq (isAlpha_of_isLower hc) hd h).resolve_left ?_
  rintro rfl
  rw [(cases_of_isLower hd).2.2.2] at hc
  cases hc

/-- Capitals show where words begin, so that capitalized words can be told apart again. -/
theorem eq_of_flatMap_capitalize_eq (hus : ∀ u ∈ us, IsLowerWord u)
    (hws : ∀ w ∈ ws, IsLowerWord w)
    (h : us.flatMap (capitalize false) = ws.flatMap (capitalize false)) : us = ws := by
  induction us generalizing ws with
  | nil =>
    cases ws with
    | nil => rfl
    | cons w ws =>
      obtain ⟨hne, hlower⟩ := hws w List.mem_cons_self
      cases w with
      | nil => exact absurd rfl hne
      | cons d ds =>
        rw [List.flatMap_cons, capitalize_false_cons ds (hlower d List.mem_cons_self)] at h
        cases h
  | cons u us ih =>
    obtain ⟨hu, hmore⟩ := List.forall_mem_cons.1 hus
    cases u with
    | nil => exact absurd rfl hu.1
    | cons c cs =>
      obtain ⟨hc, hcs⟩ := List.forall_mem_cons.1 hu.2
      rw [List.flatMap_cons, capitalize_false_cons cs hc] at h
      cases ws with
      | nil => cases h
      | cons w ws =>
        obtain ⟨hw, hrest⟩ := List.forall_mem_cons.1 hws
        cases w with
        | nil => exact absurd rfl hw.1
        | cons d ds =>
          obtain ⟨hd, hds⟩ := List.forall_mem_cons.1 hw.2
          rw [List.flatMap_cons, capitalize_false_cons ds hd] at h
          obtain ⟨hhead, htail⟩ := List.cons.inj h
          obtain ⟨rfl, hbehind⟩ := append_inj_of_isLower hcs hds
            (fun x hx => (head?_flatMap_capitalize hmore x hx).2)
            (fun x hx => (head?_flatMap_capitalize hrest x hx).2) htail
          rw [eq_of_toUpper_eq_of_isLower hc hd hhead, ih hmore hrest hbehind]

/-- Capitalizing a word of letters and capitalizing it in lower case give the same. -/
theorem capitalize_true_eq {u : List Char} (h : ∀ c ∈ u, c.isAlpha = true) :
    (∀ c ∈ u.map Char.toLower, c.isLower = true) ∧
      capitalize true u = capitalize false (u.map Char.toLower) := by
  have hlower : ∀ c ∈ u.map Char.toLower, c.isLower = true := by
    intro c hc
    obtain ⟨d, hd, rfl⟩ := List.mem_map.1 hc
    exact of_forall_ascii (fun c => c.isAlpha = true → c.toLower.isLower = true) (by decide)
      (toNat_lt_of_isAlpha (h d hd)) (h d hd)
  refine ⟨hlower, ?_⟩
  cases u with
  | nil => rfl
  | cons c cs =>
    have hrest : ∀ d ∈ c :: cs, isIdentifierRest d = true :=
      fun d hd => isIdentifierRest_of_isAlpha (h d hd)
    obtain ⟨hc, hcs⟩ := List.forall_mem_cons.1 hrest
    rw [capitalize_true_cons hc hcs, List.map_cons,
      capitalize_false_cons _ (hlower c.toLower List.mem_cons_self), toUpper_toLower hc]

/-- Words of any letter case are written like words in lower case exactly if these are the same
words. -/
theorem flatMap_capitalize_eq_iff
    (hus : ∀ u ∈ us, u ≠ [] ∧ ∀ c ∈ u, isIdentifierRest c = true) (hws : ∀ w ∈ ws, IsLowerWord w) :
    us.flatMap (capitalize true) = ws.flatMap (capitalize false) ↔
      us.map (List.map Char.toLower) = ws := by
  -- On either side of the equivalence the words are made of letters.
  have hiff : (∀ u ∈ us, ∀ c ∈ u, c.isAlpha = true) →
      (us.flatMap (capitalize true) = ws.flatMap (capitalize false) ↔
        us.map (List.map Char.toLower) = ws) := by
    intro halpha
    have hflat : us.flatMap (capitalize true) =
        (us.map (List.map Char.toLower)).flatMap (capitalize false) := by
      rw [List.flatMap_map]
      exact List.flatMap_congr fun u hu => (capitalize_true_eq (halpha u hu)).2
    have hlowered : ∀ v ∈ us.map (List.map Char.toLower), IsLowerWord v := by
      intro v hv
      obtain ⟨u, hu, rfl⟩ := List.mem_map.1 hv
      exact ⟨fun heq => (hus u hu).1 (List.map_eq_nil_iff.1 heq),
        (capitalize_true_eq (halpha u hu)).1⟩
    rw [hflat]
    exact ⟨eq_of_flatMap_capitalize_eq hlowered hws, fun heq => by rw [heq]⟩
  refine ⟨fun h => (hiff ?_).1 h, fun h => (hiff ?_).2 h⟩
  · intro u hu c hc
    have hall : ∀ x ∈ capitalize true u, x.isAlpha = true :=
      fun x hx => isAlpha_of_mem_flatMap hws x (h ▸ List.mem_flatMap.2 ⟨u, hu, hx⟩)
    obtain ⟨-, hrest⟩ := hus u hu
    cases u with
    | nil => cases hc
    | cons d ds =>
      obtain ⟨hd, hds⟩ := List.forall_mem_cons.1 hrest
      rw [capitalize_true_cons hd hds] at hall
      rcases List.mem_cons.1 hc with rfl | hc
      · exact isAlpha_of_cases hd (.inl (hall _ List.mem_cons_self))
      · exact isAlpha_of_cases (hds c hc)
          (.inr (hall _ (List.mem_cons_of_mem _ (List.mem_map_of_mem hc))))
  · intro u hu c hc
    have hw : u.map Char.toLower ∈ ws := h ▸ List.mem_map_of_mem hu
    have hlower := (hws _ hw).2 c.toLower (List.mem_map_of_mem hc)
    exact isAlpha_of_cases ((hus u hu).2 c hc) (.inr (isAlpha_of_isLower hlower))

end

section
variable {n : String} {words : List String}

theorem toUppercase_eq_map (h : ∀ c ∈ n.toList, isIdentifierRest c = true) :
    toUppercase n = String.ofList (n.toList.map Char.toUpper) := by
  unfold toUppercase
  rw [List.flatMap_congr fun c hc => upperChar_of_isIdentifierRest (h c hc),
    List.map_eq_flatMap]

theorem eq_toUppercase_iff (h : ∀ c ∈ n.toList, isIdentifierRest c = true) :
    n = toUppercase n ↔ ∀ c ∈ n.toList, c.toUpper = c := by
  rw [toUppercase_eq_map h, ← String.toList_inj, String.toList_ofList, eq_comm]
  have hmap := List.map_inj_left (l := n.toList) (f := Char.toUpper) (g := id)
  rwa [List.map_id] at hmap

/-- Words in lower case, of two letters at least: of such words not all letters become capitals. -/
def IsPlain (words : List String) : Prop :=
  words ≠ [] ∧ ∀ w ∈ words, ∃ d e es, w.toList = d :: e :: es ∧ ∀ c ∈ d :: e :: es, c.isLower = true

theorem isPlain_of_all (hne : words ≠ [])
    (h : (words.all fun w => decide (2 ≤ w.toList.length) && w.toList.all Char.isLower) = true) :
    IsPlain words := by
  refine ⟨hne, fun w hw => ?_⟩
  obtain ⟨hlength, hlower⟩ := Bool.and_eq_true_iff.1 (List.all_eq_true.1 h w hw)
  have hlength : 2 ≤ w.toList.length := of_decide_eq_true hlength
  match hcs : w.toList with
  | [] =>
    rw [hcs] at hlength
    simp at hlength
  | [_] =>
    rw [hcs] at hlength
    simp at hlength
  | d :: e :: es =>
    rw [hcs] at hlower
    exact ⟨d, e, es, rfl, List.all_eq_true.1 hlower⟩

theorem IsPlain.isLowerWord (h : IsPlain words) :
    ∀ w ∈ words.map String.toList, IsLowerWord w := by
  intro cs hcs
  obtain ⟨w, hw, rfl⟩ := List.mem_map.1 hcs
  obtain ⟨d, e, es, hw, hlower⟩ := h.2 w hw
  rw [hw]
  exact ⟨List.cons_ne_nil _ _, hlower⟩

theorem capitalized_eq_ofList (words : List String) :
    capitalized words = String.ofList ((words.map String.toList).flatMap (capitalize false)) := by
  rw [List.flatMap_map]
  rfl

theorem flatMap_filter_ne_nil (pieces : List (List Char)) :
    (pieces.filter (· ≠ [])).flatMap (capitalize true) = pieces.flatMap (capitalize true) := by
  induction pieces with
  | nil => rfl
  | cons piece pieces ih =>
    cases piece with
    | nil => exact ih
    | cons c cs =>
      rw [List.filter_cons_of_pos (by simp), List.flatMap_cons, List.flatMap_cons, ih]

theorem isIdentifierRest_of_mem_splitAt {cs : List Char} (h : ∀ c ∈ cs, isIdentifierRest c = true) :
    ∀ piece ∈ splitAt '_' cs, ∀ c ∈ piece, isIdentifierRest c = true := by
  induction cs with
  | nil => simp [splitAt]
  | cons c cs ih =>
    obtain ⟨hc, hcs⟩ := List.forall_mem_cons.1 h
    obtain ⟨piece, pieces, hsplit, hpiece, -⟩ := joinWords_eq hcs
    have hpieces := ih hcs
    rw [hsplit] at hpieces
    rw [splitAt]
    split
    · rw [hsplit]
      exact List.forall_mem_cons.2 ⟨by simp, hpieces⟩
    · rw [hsplit]
      exact List.forall_mem_cons.2
        ⟨List.forall_mem_cons.2 ⟨hc, hpiece⟩, (List.forall_mem_cons.1 hpieces).2⟩

theorem pascalCase_eq_iff_of_underscore (hn : isIdentifier n = true) (hunderscore : '_' ∈ n.toList)
    (hwords : IsPlain words) : pascalCase n = capitalized words ↔ nameWords n = words := by
  have hrest : ∀ piece ∈ (splitAt '_' n.toList).filter (· ≠ []),
      piece ≠ [] ∧ ∀ c ∈ piece, isIdentifierRest c = true := by
    intro piece hpiece
    obtain ⟨hmem, hne⟩ := List.mem_filter.1 hpiece
    exact ⟨of_decide_eq_true hne, isIdentifierRest_of_mem_splitAt
      (fun c hc => isIdentifierRest_of_mem hn hc) piece hmem⟩
  have hpascal : pascalCase n =
      String.ofList (((splitAt '_' n.toList).filter (· ≠ [])).flatMap (capitalize true)) := by
    unfold pascalCase
    rw [if_pos hunderscore, flatMap_filter_ne_nil]
  have hmap : ∀ ws : List (List Char), ws = words.map String.toList ↔
      ws.map String.ofList = words := by
    intro ws
    refine ⟨fun h => ?_, fun h => ?_⟩
    · rw [h, List.map_map]
      simp
    · rw [← h, List.map_map]
      simp
  rw [hpascal, capitalized_eq_ofList, String.ofList_inj,
    flatMap_capitalize_eq_iff hrest hwords.isLowerWord, hmap, List.map_map]
  rfl

/-- Letters that all are capitals, none of which is left behind the first. -/
theorem pascalCase_of_upper {c : Char} {cs : List Char} (hs : n.toList = c :: cs)
    (hunderscore : '_' ∉ n.toList) (hrest : ∀ d ∈ c :: cs, isIdentifierRest d = true)
    (hupper : n = toUppercase n) :
    pascalCase n = String.ofList (c.toUpper :: cs.map Char.toLower) := by
  obtain ⟨hc, hcs⟩ := List.forall_mem_cons.1 hrest
  unfold pascalCase
  rw [if_neg hunderscore, beq_iff_eq.2 hupper, hs, capitalize_true_cons hc hcs]

theorem pascalCase_of_not_upper {c : Char} {cs : List Char} (hs : n.toList = c :: cs)
    (hunderscore : '_' ∉ n.toList) (hc : isIdentifierRest c = true) (hupper : n ≠ toUppercase n) :
    pascalCase n = String.ofList (c.toUpper :: cs) := by
  unfold pascalCase
  rw [if_neg hunderscore, beq_eq_false_iff_ne.2 hupper, hs]
  show String.ofList (upperChar c ++ cs) = _
  rw [upperChar_of_isIdentifierRest hc]
  rfl

/-- Words run together: a small letter, which becomes a capital in Pascal case, and behind it what
both ways of writing share.  It has a small letter, and no capital if there is one word only. -/
structure RunTogether (words : List String) (d : Char) (cs : List Char) : Prop where
  first : d.isLower = true
  capitalized_eq : capitalized words = String.ofList (d.toUpper :: cs)
  camelCased_eq : camelCased words = String.ofList (d :: cs)
  small : ∃ e ∈ cs, e.isLower = true
  word : ∀ w, words = [w] → w.toList = d :: cs ∧ ∀ c ∈ cs, c.isLower = true
  single : (∀ c ∈ cs, c.isUpper = false) → ∃ w, words = [w]

theorem IsPlain.exists_runTogether (h : IsPlain words) : ∃ d cs, RunTogether words d cs := by
  obtain ⟨hne, hplain⟩ := h
  cases words with
  | nil => exact absurd rfl hne
  | cons w words =>
    obtain ⟨d, e, es, hw, hlower⟩ := hplain w List.mem_cons_self
    obtain ⟨hd, htail⟩ := List.forall_mem_cons.1 hlower
    refine ⟨d, e :: es ++ words.flatMap fun w => capitalize false w.toList, hd, ?_, ?_, ?_, ?_, ?_⟩
    · unfold capitalized
      rw [List.flatMap_cons, hw, capitalize_false_cons _ hd]
      rfl
    · show w ++ capitalized words = _
      unfold capitalized
      rw [← String.toList_inj, String.toList_append, hw, String.toList_ofList,
        String.toList_ofList]
      rfl
    · exact ⟨e, by simp, htail e List.mem_cons_self⟩
    · rintro w' heq
      cases heq
      exact ⟨by simpa using hw, by simpa using htail⟩
    · intro hsmall
      cases words with
      | nil => exact ⟨w, rfl⟩
      | cons w' words =>
        obtain ⟨d', e', es', hw', hlower'⟩ := hplain w' (by simp)
        have hd' := hlower' d' List.mem_cons_self
        have hcapital := hsmall d'.toUpper (by
          rw [List.flatMap_cons, hw', capitalize_false_cons _ hd']
          simp)
        rw [(cases_of_isLower hd').2.2.1] at hcapital
        cases hcapital

theorem RunTogether.isIdentifierRest_word {d : Char} {ds : List Char} (h : RunTogether words d ds)
    {w : String} (hw : words = [w]) : ∀ x ∈ w.toList, isIdentifierRest x = true := by
  obtain ⟨hword, hlower⟩ := h.word w hw
  rw [hword]
  exact List.forall_mem_cons.2 ⟨isIdentifierRest_of_isAlpha (isAlpha_of_isLower h.first),
    fun x hx => isIdentifierRest_of_isAlpha (isAlpha_of_isLower (hlower x hx))⟩

theorem RunTogether.toUppercase_eq {d : Char} {ds : List Char} (h : RunTogether words d ds)
    {w : String} (hw : words = [w]) :
    toUppercase w = String.ofList (d.toUpper :: ds.map Char.toUpper) := by
  rw [toUppercase_eq_map (h.isIdentifierRest_word hw), (h.word w hw).1, List.map_cons]

/-- A name all in capitals is written like one word at most. -/
theorem pascalCase_eq_iff_of_upper {c d : Char} {cs ds : List Char} (hs : n.toList = c :: cs)
    (hunderscore : '_' ∉ n.toList) (hrest : ∀ x ∈ c :: cs, isIdentifierRest x = true)
    (hupper : n = toUppercase n) (h : RunTogether words d ds) :
    pascalCase n = capitalized words ↔ ∃ w, words = [w] ∧ n = toUppercase w := by
  have hcapital : ∀ x ∈ c :: cs, x.toUpper = x := hs ▸ (eq_toUppercase_iff (hs ▸ hrest)).1 hupper
  have hname : n = String.ofList (c :: cs) := by rw [← hs, String.ofList_toList]
  obtain ⟨hc, hcs⟩ := List.forall_mem_cons.1 hrest
  obtain ⟨hcc, hcapital⟩ := List.forall_mem_cons.1 hcapital
  rw [pascalCase_of_upper hs hunderscore hrest hupper, h.capitalized_eq, String.ofList_inj, hname]
  refine ⟨?_, ?_⟩
  · intro heq
    obtain ⟨hhead, htail⟩ := List.cons.inj heq
    obtain ⟨w, hw⟩ := h.single (by
      rw [← htail]
      intro x hx
      obtain ⟨y, hy, rfl⟩ := List.mem_map.1 hx
      exact isUpper_toLower (hcs y hy))
    refine ⟨w, hw, ?_⟩
    rw [h.toUppercase_eq hw, ← hhead, hcc, ← htail, List.map_map]
    have hback : cs.map (Char.toUpper ∘ Char.toLower) = cs.map id :=
      List.map_inj_left.2 fun x hx => (toUpper_toLower (hcs x hx)).trans (hcapital x hx)
    rw [hback, List.map_id]
  · rintro ⟨w, hw, heq⟩
    rw [h.toUppercase_eq hw, String.ofList_inj] at heq
    obtain ⟨hhead, htail⟩ := List.cons.inj heq
    obtain ⟨-, hlower⟩ := h.word w hw
    have hback : ds.map (Char.toLower ∘ Char.toUpper) = ds.map id := by
      refine List.map_inj_left.2 fun x hx => ?_
      have hx := hlower x hx
      exact (toLower_toUpper (isIdentifierRest_of_isAlpha (isAlpha_of_isLower hx))).trans
        (cases_of_isLower hx).1
    rw [hcc, hhead, htail, List.map_map, hback, List.map_id]

theorem pascalCase_eq_iff_of_not_upper {c d : Char} {cs ds : List Char} (hs : n.toList = c :: cs)
    (hunderscore : '_' ∉ n.toList) (hc : c.isAlpha = true) (hupper : n ≠ toUppercase n)
    (h : RunTogether words d ds) :
    pascalCase n = capitalized words ↔ n = capitalized words ∨ n = camelCased words := by
  have hname : n = String.ofList (c :: cs) := by rw [← hs, String.ofList_toList]
  rw [pascalCase_of_not_upper hs hunderscore (isIdentifierRest_of_isAlpha hc) hupper,
    h.capitalized_eq, h.camelCased_eq, hname, String.ofList_inj, String.ofList_inj,
    String.ofList_inj, List.cons.injEq, List.cons.injEq, List.cons.injEq]
  have hhead : c.toUpper = d.toUpper ↔ c = d.toUpper ∨ c = d := by
    refine ⟨eq_of_toUpper_eq hc h.first, ?_⟩
    rintro (rfl | rfl)
    · exact toUpper_toUpper (isIdentifierRest_of_isAlpha (isAlpha_of_isLower h.first))
    · rfl
  rw [hhead, or_and_right]

/-- In Pascal case, names are written like words exactly if they spell these words. -/
theorem pascalCase_eq_iff (hn : isIdentifier n = true) (hwords : IsPlain words) :
    pascalCase n = capitalized words ↔ Spelling words n := by
  unfold Spelling
  by_cases hunderscore : '_' ∈ n.toList
  · rw [if_pos hunderscore, pascalCase_eq_iff_of_underscore hn hunderscore hwords]
  rw [if_neg hunderscore]
  obtain ⟨c, cs, hs, halpha, hall⟩ := exists_cons_of_isIdentifier hn hunderscore
  have hrest : ∀ x ∈ c :: cs, isIdentifierRest x = true := fun x hx => (hall x hx).1
  obtain ⟨d, ds, hd⟩ := hwords.exists_runTogether
  by_cases hupper : n = toUppercase n
  · rw [pascalCase_eq_iff_of_upper hs hunderscore hrest hupper hd]
    have hcapital := (eq_toUppercase_iff (hs ▸ hrest)).1 hupper
    obtain ⟨e, he, hsmall⟩ := hd.small
    have hmixed : ∀ x, n ≠ String.ofList (x :: ds) := by
      rintro x rfl
      exact (cases_of_isLower hsmall).2.1 (hcapital e (by simp [he]))
    rw [hd.capitalized_eq, hd.camelCased_eq, or_iff_right (hmixed _), or_iff_right (hmixed _)]
  · rw [pascalCase_eq_iff_of_not_upper hs hunderscore halpha hupper hd]
    refine ⟨fun h => h.elim .inl fun h => .inr (.inl h), ?_⟩
    rintro (h | h | ⟨w, hw, h⟩)
    · exact .inl h
    · exact .inr h
    · refine absurd ((eq_toUppercase_iff (hs ▸ hrest)).2 ?_) hupper
      rw [h, toUppercase_eq_map (hd.isIdentifierRest_word hw), String.toList_ofList]
      intro x hx
      obtain ⟨y, hy, rfl⟩ := List.mem_map.1 hx
      exact toUpper_toUpper (hd.isIdentifierRest_word hw y hy)

end

end WireCodec.Text
