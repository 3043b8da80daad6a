import Mathlib
import WireCodec.Proofs.TokenPatterns

/-!
# Where tokens stand

Nothing of a text is lost between its tokens: what stands in front of them, between them and
behind them is layout.

* `IsLayout back cs`       `cs` is made of blanks and of comments that go to the end of their lines;
* `Spread text o placed`   from byte `o` on, the text is the tokens in `placed`, each at its offset,
                           with layout around them;
* `Cut.spread`             the lexemes of a text leave its tokens spread over it;
* `Cut.matched`            the lexemes of a text are what the pattern takes;
* `Stray.not_matched`      it takes nothing where a stray piece starts;
* `tokenize_spread`        the statement for texts.
-/

namespace WireCodec
namespace Source

/-! ## Layout -/

/-- Blanks and comments in front of `back`.  A comment goes to the end of its line. -/
inductive IsLayout (back : List Char) : List Char → Prop
  | done : IsLayout back []
  | blank {c : Char} {cs : List Char} (hc : Text.isBlank c = true) (hmore : IsLayout back cs) :
      IsLayout back (c :: cs)
  | comment {chars cs : List Char} (hline : ∀ c ∈ chars, c ≠ '\n')
      (hend : ∀ c ∈ (cs ++ back).head?, c = '\n') (hmore : IsLayout back cs) :
      IsLayout back ('/' :: '/' :: (chars ++ cs))

section
variable {front back text gap x : List Char} {l : Lexeme} {ls : List Lexeme}

theorem IsLayout.append (h : IsLayout (x ++ back) gap) (hx : IsLayout back x) :
    IsLayout back (gap ++ x) := by
  induction h with
  | done => exact hx
  | blank hc _ ih => exact .blank hc ih
  | comment hline hend _ ih =>
    rw [List.cons_append, List.cons_append, List.append_assoc]
    refine .comment hline ?_ ih
    rwa [List.append_assoc]

theorem isLayout_of_forall_isBlank (h : ∀ c ∈ x, Text.isBlank c = true) : IsLayout back x := by
  induction x with
  | nil => exact .done
  | cons c x ih =>
    obtain ⟨hc, hx⟩ := List.forall_mem_cons.1 h
    exact .blank hc (ih hx)

theorem isLayout_of_layoutFront? (h : layoutFront? (x ++ back) = some x) : IsLayout back x := by
  unfold layoutFront? at h
  split at h
  · next cs htext =>
    have hx := Option.some.inj h
    rw [← hx, List.cons_append, List.cons_append] at htext
    have hback : cs.takeWhile (· ≠ '\n') ++ back = cs :=
      (List.cons.inj (List.cons.inj htext).2).2
    have hdrop : cs.dropWhile (· ≠ '\n') = back :=
      List.append_cancel_left (List.takeWhile_append_dropWhile.trans hback.symm)
    have hcomment : IsLayout back ('/' :: '/' :: (cs.takeWhile (· ≠ '\n') ++ [])) := by
      refine .comment (fun c hc => ?_) (fun c hc => ?_) .done
      · have hne := List.mem_takeWhile_imp hc
        exact of_decide_eq_true hne
      · have hstop := List.head?_dropWhile_not (· ≠ '\n') cs
        rw [List.nil_append, ← hdrop] at hc
        rw [Option.mem_def.1 hc] at hstop
        exact not_not.1 (of_decide_eq_false hstop)
    rwa [List.append_nil, hx] at hcomment
  · split at h
    · cases h
    · have hx := Option.some.inj h
      rw [← hx]
      exact isLayout_of_forall_isBlank fun c hc => List.mem_takeWhile_imp hc

theorem isLayout_of_lexemeBetween? (h : lexemeBetween? front (l.chars ++ back) = some l)
    (hkind : l.kind = .layout) : IsLayout back l.chars := by
  unfold lexemeBetween? lexemeFront? at h
  split at h
  · cases h
    cases hkind
  · obtain ⟨v, hv, rfl⟩ := Option.map_eq_some_iff.1 h
    exact isLayout_of_layoutFront? hv

end

/-! ## Tokens spread over a text -/

def StandsAt (text : String) (offset : Nat) (piece : String) : Prop :=
  ∃ front back, text = front ++ piece ++ back ∧ front.utf8ByteSize = offset

def LayoutBetween (text : String) (start stop : Nat) : Prop :=
  ∃ front gap back, text = front ++ gap ++ back ∧ front.utf8ByteSize = start ∧
    (front ++ gap).utf8ByteSize = stop ∧ IsLayout back.toList gap.toList

/-- From a byte offset on, the text consists of tokens, each at its offset and with its line and
column, and of layout around them. -/
inductive Spread (text : String) : Nat → List (Token × Nat) → Prop
  | done {start : Nat} (hlayout : LayoutBetween text start text.utf8ByteSize) :
      Spread text start []
  | step {start offset : Nat} {t : Token} {placed : List (Token × Nat)}
      (hlayout : LayoutBetween text start offset) (hne : t.text ≠ "")
      (htext : StandsAt text offset t.text) (hplace : t.position = .atOffset text offset)
      (hmore : Spread text (offset + t.text.utf8ByteSize) placed) :
      Spread text start ((t, offset) :: placed)

section
variable {text : String} {start : Nat} {placed : List (Token × Nat)}

theorem LayoutBetween.le {stop : Nat} (h : LayoutBetween text start stop) : start ≤ stop := by
  obtain ⟨front, gap, back, -, rfl, rfl, -⟩ := h
  rw [String.utf8ByteSize_append]
  omega

theorem Spread.le (h : Spread text start placed) : ∀ entry ∈ placed, start ≤ entry.2 := by
  induction h with
  | done => simp
  | step hlayout _ _ _ _ ih =>
    have hle := hlayout.le
    refine List.forall_mem_cons.2 ⟨hle, fun entry hentry => ?_⟩
    have hmore := ih entry hentry
    omega

/-- The offsets increase, since tokens are not empty. -/
theorem Spread.pairwise (h : Spread text start placed) :
    (placed.map Prod.snd).Pairwise (· < ·) := by
  induction h with
  | done => exact .nil
  | @step start offset t placed _ hne _ _ hmore ih =>
    refine List.pairwise_cons.2 ⟨fun next hnext => ?_, ih⟩
    obtain ⟨entry, hentry, rfl⟩ := List.mem_map.1 hnext
    have hle := hmore.le entry hentry
    have hpos : t.text.utf8ByteSize ≠ 0 :=
      fun hzero => hne (String.utf8ByteSize_eq_zero_iff.1 hzero)
    omega

end

section
variable {text : String} {front back gap : List Char} {ls : List Lexeme}

theorem layoutBetween_of_toList {done : List Char} (htext : text.toList = done ++ gap ++ back)
    (hgap : IsLayout back gap) : LayoutBetween text (String.ofList done).utf8ByteSize
      (String.ofList (done ++ gap)).utf8ByteSize := by
  refine ⟨String.ofList done, String.ofList gap, String.ofList back, ?_, rfl, ?_, ?_⟩
  · rw [← String.ofList_append, ← String.ofList_append, ← htext, String.ofList_toList]
  · rw [String.ofList_append]
  · rwa [String.toList_ofList, String.toList_ofList]

/-- The lexemes of a text leave its tokens spread over it.  Behind `done` there is layout only. -/
theorem Cut.spread (h : Cut [] front back ls) {done : List Char} (hfront : front = done ++ gap)
    (htext : text.toList = front ++ back) (hgap : IsLayout back gap) :
    ∃ placed, Spread text (String.ofList done).utf8ByteSize placed ∧
      (tokenOffsets (String.ofList front).utf8ByteSize ls).map (tokenAt text) =
        placed.map Prod.fst ++ [⟨"", .atOffset text text.utf8ByteSize⟩] ∧
      placed.map (fun entry => entry.1.text.toList) =
        (ls.filter (·.kind = .token)).map Lexeme.chars := by
  induction h generalizing done gap with
  | done =>
    rename_i front
    have hsize : (String.ofList front).utf8ByteSize = text.utf8ByteSize := by
      rw [List.append_nil] at htext
      rw [← htext, String.ofList_toList]
    refine ⟨[], .done ?_, ?_, rfl⟩
    · rw [← hsize, hfront]
      exact layoutBetween_of_toList (by rwa [← hfront]) hgap
    · rw [hsize]
      rfl
  | @step front back l ls hfound hlexical hmore ih =>
    have hbehind : text.toList = (front ++ l.chars) ++ back := by
      rw [htext, List.append_assoc]
    cases hkind : l.kind with
    | token =>
      obtain ⟨placed, hspread, htokens, htexts⟩ :=
        ih (List.append_nil (front ++ l.chars)).symm hbehind .done
      rw [utf8ByteSize_ofList_append] at hspread htokens
      have hlayout := layoutBetween_of_toList (by rwa [← hfront]) hgap
      have hne : String.ofList l.chars ≠ "" :=
        fun hempty => hlexical.ne_nil (String.ofList_eq_empty_iff.1 hempty)
      have hstands : StandsAt text (String.ofList front).utf8ByteSize (String.ofList l.chars) := by
        refine ⟨String.ofList front, String.ofList back, ?_, rfl⟩
        rw [← String.ofList_append, ← String.ofList_append, ← hbehind, String.ofList_toList]
      rw [← hfront] at hlayout
      refine ⟨(tokenAt text (String.ofList l.chars, (String.ofList front).utf8ByteSize),
        (String.ofList front).utf8ByteSize) :: placed, .step hlayout hne hstands rfl hspread, ?_,
        ?_⟩
      · rw [tokenOffsets, if_pos hkind, List.map_cons, htokens]
        rfl
      · rw [List.filter_cons_of_pos (by simp [hkind]), List.map_cons, List.map_cons, htexts]
        exact congrArg (· :: _) String.toList_ofList
    | layout =>
      have hmoregap : IsLayout back (gap ++ l.chars) :=
        hgap.append (isLayout_of_lexemeBetween? hfound hkind)
      obtain ⟨placed, hspread, htokens, htexts⟩ :=
        ih (by rw [hfront, List.append_assoc]) hbehind hmoregap
      rw [utf8ByteSize_ofList_append] at htokens
      refine ⟨placed, hspread, ?_, ?_⟩
      · rw [tokenOffsets, if_neg (by simp [hkind]), htokens]
      · rw [List.filter_cons_of_neg (by simp [hkind]), htexts]

/-! ## What the pattern takes -/

theorem Cut.matched (h : Cut [] front back ls) :
    Matched tokenPattern front back (ls.map Lexeme.chars) := by
  induction h with
  | done => exact .done
  | step hfound _ _ ih => exact .step (by rw [first?_tokenPattern, hfound]; rfl) ih

/-- The pieces that the pattern takes are lexemes, so a text that it takes to its end is cut up to
its end. -/
theorem Cut.exists_matched {rest : List Char} (h : Cut rest front back ls)
    {pieces : List (List Char)} (hpieces : Matched tokenPattern front back pieces) :
    ∃ more, Matched tokenPattern (front ++ ls.flatMap Lexeme.chars) rest more := by
  induction h generalizing pieces with
  | done => exact ⟨pieces, by rwa [List.flatMap_nil, List.append_nil]⟩
  | @step front back l ls hfound hlexical _ ih =>
    generalize htext : l.chars ++ back = text at hpieces
    cases hpieces with
    | done => exact absurd (List.append_eq_nil_iff.1 htext).1 hlexical.ne_nil
    | @step _ back' piece pieces hfirst hmore =>
      rw [first?_tokenPattern, ← htext, hfound] at hfirst
      cases hfirst
      obtain rfl := List.append_cancel_left htext
      obtain ⟨more, hmatched⟩ := ih hmore
      rw [List.append_assoc] at hmatched
      exact ⟨more, by rwa [List.flatMap_cons]⟩

theorem Stray.not_matched {piece rest : List Char} (h : Stray front piece rest) (hne : piece ≠ [])
    (pieces : List (List Char)) : ¬ Matched tokenPattern front (piece ++ rest) pieces := by
  intro hpieces
  have hnone : lexemeBetween? front (piece ++ rest) = none := by
    have hinside := h.inside [] piece rfl hne
    rw [List.append_nil] at hinside
    exact lexemeBetween?_eq_none_iff.2 hinside
  generalize htext : piece ++ rest = text at hpieces hnone
  cases hpieces with
  | done => exact hne (List.append_eq_nil_iff.1 htext).1
  | step hfirst _ =>
    rw [first?_tokenPattern, hnone] at hfirst
    cases hfirst

theorem Cut.filter_fits (h : Cut [] front back ls) :
    (ls.map Lexeme.chars).filter (fun piece => !layoutPattern.fits piece) =
      (ls.filter (·.kind = .token)).map Lexeme.chars := by
  induction h with
  | done => rfl
  | @step front back l ls _ hlexical _ ih =>
    have hfits := fits_layoutPattern_iff hlexical
    cases hkind : l.kind with
    | token =>
      have hnot : layoutPattern.fits l.chars = false := by
        rw [← Bool.not_eq_true, hfits, hkind]
        decide
      rw [List.map_cons, List.filter_cons_of_pos (by rw [hnot]; rfl),
        List.filter_cons_of_pos (by simp [hkind]), List.map_cons, ih]
    | layout =>
      rw [List.map_cons, List.filter_cons_of_neg (by rw [hfits.2 hkind]; decide),
        List.filter_cons_of_neg (by simp [hkind]), ih]

end

/-! ## Texts -/

/-- The tokens of a text stand at increasing offsets with layout around them, and they are the
pieces that the pattern of schema texts takes one after the other, less those that are layout.  A
text is refused exactly if the pattern does not take it to its end. -/
theorem tokenize_spread (text : String) :
    (∀ tokens, tokenize text = .ok tokens →
      ∃ placed, Spread text 0 placed ∧ (placed.map Prod.snd).Pairwise (· < ·) ∧
        tokens = placed.map Prod.fst ++ [⟨"", .atOffset text text.utf8ByteSize⟩] ∧
        ∃ pieces, Matched tokenPattern [] text.toList pieces ∧
          placed.map (fun entry => entry.1.text.toList) =
            pieces.filter fun piece => !layoutPattern.fits piece) ∧
    ((∃ e, tokenize text = .error e) ↔
      ¬ ∃ pieces, Matched tokenPattern [] text.toList pieces) := by
  obtain ⟨ls, piece, rest, hcut, hstray, hnil, htokenize⟩ := exists_cut_of_tokenize text
  by_cases hpiece : piece = []
  · rw [if_pos hpiece] at htokenize
    rw [hpiece, hnil hpiece, List.append_nil] at hcut
    refine ⟨fun tokens h => ?_, ?_⟩
    · rw [htokenize] at h
      cases h
      obtain ⟨placed, hspread, htokens, htexts⟩ :=
        @Cut.spread text [] text.toList [] ls hcut [] rfl rfl .done
      exact ⟨placed, hspread, hspread.pairwise, htokens, _, hcut.matched,
        htexts.trans hcut.filter_fits.symm⟩
    · refine iff_of_false ?_ (not_not.2 ⟨_, hcut.matched⟩)
      rintro ⟨e, h⟩
      rw [htokenize] at h
      cases h
  · rw [if_neg hpiece] at htokenize
    refine ⟨fun tokens h => ?_, iff_of_true ⟨_, htokenize⟩ ?_⟩
    · rw [htokenize] at h
      cases h
    · rintro ⟨pieces, hpieces⟩
      obtain ⟨more, hmore⟩ := hcut.exists_matched hpieces
      exact hstray.not_matched hpiece more hmore

end Source

/-- A comment, a blank of two bytes, and three tokens. -/
def Sample.commented : String := "//ü\n\u00a0a 1.0.0-x;"

namespace Source

set_option maxRecDepth 20000 in
theorem tokenize_spread_commented :
    tokenize Sample.commented =
      .ok [⟨"a", ⟨2, 3⟩⟩, ⟨"1.0.0-x", ⟨2, 5⟩⟩, ⟨";", ⟨2, 12⟩⟩, ⟨"", ⟨2, 13⟩⟩] ∧
    ∃ placed, Spread Sample.commented 0 placed ∧ (placed.map Prod.snd).Pairwise (· < ·) ∧
      [⟨"a", ⟨2, 3⟩⟩, ⟨"1.0.0-x", ⟨2, 5⟩⟩, ⟨";", ⟨2, 12⟩⟩, ⟨"", ⟨2, 13⟩⟩] = placed.map Prod.fst ++
        [⟨"", .atOffset Sample.commented Sample.commented.utf8ByteSize⟩] ∧
      ∃ pieces, Matched tokenPattern [] Sample.commented.toList pieces ∧
        placed.map (fun entry => entry.1.text.toList) =
          pieces.filter fun piece => !layoutPattern.fits piece := by
  have htokens : tokenize Sample.commented =
      .ok [⟨"a", ⟨2, 3⟩⟩, ⟨"1.0.0-x", ⟨2, 5⟩⟩, ⟨";", ⟨2, 12⟩⟩, ⟨"", ⟨2, 13⟩⟩] := by
    cbv
  exact ⟨htokens, (tokenize_spread Sample.commented).1 _ htokens⟩

end Source
end WireCodec
