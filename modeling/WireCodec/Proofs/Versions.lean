import WireCodec.Proofs.Acceptance
import WireCodec.Source.Error

/-!
# The texts of versions

Schema texts write versions as tokens of a class of their own.  The class is wider than the
versions: it asks for a digit and then for characters that versions have.

* `Version.Passes cs rest`             what was read in front of `rest` has such characters only;
* `Version.accepts_of_parse`           so the text of a version belongs to the class.
-/

namespace WireCodec

open Source (TokenClass)

namespace Version

/-- `rest` is what is left of `cs` behind characters of version tokens. -/
def Passes (cs rest : List Char) : Prop :=
  ∃ front, cs = front ++ rest ∧ ∀ c ∈ front, TokenClass.isVersionChar c = true

variable {cs mid rest : List Char} {c : Char} {part last last' : Part} {n : Nat}

theorem passes_refl (cs : List Char) : Passes cs cs :=
  ⟨[], rfl, fun _ hc => absurd hc List.not_mem_nil⟩

theorem passes_cons (hc : TokenClass.isVersionChar c = true) (h : Passes cs rest) :
    Passes (c :: cs) rest := by
  obtain ⟨front, rfl, hfront⟩ := h
  exact ⟨c :: front, rfl, List.forall_mem_cons.2 ⟨hc, hfront⟩⟩

theorem Passes.trans (h : Passes cs mid) (h' : Passes mid rest) : Passes cs rest := by
  obtain ⟨front, rfl, hfront⟩ := h
  obtain ⟨front', rfl, hfront'⟩ := h'
  exact ⟨front ++ front', (List.append_assoc front front' rest).symm,
    List.forall_mem_append.2 ⟨hfront, hfront'⟩⟩

theorem isVersionChar_of_isSegmentChar (h : isSegmentChar c = true) :
    TokenClass.isVersionChar c = true := by
  have hsegment : Source.isSegmentChar c = true := h
  unfold TokenClass.isVersionChar Source.isBuildChar
  rw [hsegment, Bool.true_or, Bool.true_or]

theorem isVersionChar_of_isDigit (h : c.isDigit = true) : TokenClass.isVersionChar c = true := by
  apply isVersionChar_of_isSegmentChar
  unfold isSegmentChar Char.isAlphanum
  rw [h, Bool.or_true, Bool.true_or]

theorem passes_of_moreDigits {value : Nat} (h : moreDigits part value cs = .ok (n, rest)) :
    Passes cs rest := by
  induction cs generalizing value with
  | nil =>
    cases h
    exact passes_refl []
  | cons c cs ih =>
    rw [moreDigits] at h
    split at h
    · next hdigit =>
      dsimp only at h
      split at h
      · cases h
      · split at h
        · cases h
        · exact passes_cons (isVersionChar_of_isDigit hdigit) (ih h)
    · cases h
      exact passes_refl (c :: cs)

theorem exists_of_number (h : number part cs = .ok (n, rest)) :
    Passes cs rest ∧ ∃ c more, cs = c :: more ∧ c.isDigit = true := by
  cases cs with
  | nil => cases h
  | cons c cs =>
    rw [number] at h
    split at h
    · next hdigit =>
      have hmore := passes_of_moreDigits h
      exact ⟨passes_cons (isVersionChar_of_isDigit hdigit) hmore, c, cs, rfl, hdigit⟩
    · cases h

theorem passes_of_dot (h : dot part cs = .ok rest) : Passes cs rest := by
  unfold dot at h
  split at h
  · cases h
  · cases h
    exact passes_cons (by decide) (passes_refl rest)
  · cases h

theorem passes_of_segments {done segment text : List Char}
    (h : segments part done segment cs = .ok (text, rest)) : Passes cs rest := by
  induction cs generalizing done segment with
  | nil =>
    rw [segments] at h
    split at h
    · cases h
    · split at h
      · cases h
      · cases h
        exact passes_refl []
  | cons c cs ih =>
    rw [segments] at h
    split at h
    · next hsegment => exact passes_cons (isVersionChar_of_isSegmentChar hsegment) (ih h)
    · split at h
      · cases h
      · split at h
        · cases h
        · split at h
          · next hdot =>
            have hc : TokenClass.isVersionChar c = true := by
              rw [hdot]
              decide
            exact passes_cons hc (ih h)
          · cases h
            exact passes_refl (c :: cs)

theorem passes_of_marked {mark : Char} {text : List Char}
    (hmark : TokenClass.isVersionChar mark = true)
    (h : marked mark part last cs = .ok (text, rest, last')) : Passes cs rest := by
  unfold marked at h
  split at h
  · cases h
    exact passes_refl []
  · split at h
    · next heq =>
      obtain ⟨⟨read, left⟩, hsegments, hok⟩ := except_bind_eq_ok_iff.1 h
      cases hok
      rw [heq]
      exact passes_cons hmark (passes_of_segments hsegments)
    · cases h
      exact passes_refl _

theorem accepts_of_passes {text : String} (h : Passes text.toList [])
    (hfirst : ∃ c more, text.toList = c :: more ∧ c.isDigit = true) :
    TokenClass.version.accepts text = true := by
  obtain ⟨front, hfront, hall⟩ := h
  obtain ⟨c, more, htext, hdigit⟩ := hfirst
  rw [htext, List.append_nil] at hfront
  rw [← hfront, List.forall_mem_cons] at hall
  have hc : Text.isDecimalDigit c = true := by
    unfold Text.isDecimalDigit
    rw [hdigit, Bool.true_or]
  rw [TokenClass.accepts, htext]
  show (Text.isDecimalDigit c && more.all TokenClass.isVersionChar) = true
  rw [hc, Bool.true_and, List.all_eq_true]
  exact hall.2

/-- Every text that parses as a version belongs to the class of version tokens. -/
theorem accepts_of_parse {text : String} {v : Version} (h : parse text = .ok v) :
    TokenClass.version.accepts text = true := by
  unfold parse at h
  rw [ite_throw_eq_ok_iff] at h
  obtain ⟨⟨_, afterMajor⟩, hmajor, h⟩ := except_bind_eq_ok_iff.1 h.2
  obtain ⟨beforeMinor, hdot, h⟩ := except_bind_eq_ok_iff.1 h
  obtain ⟨⟨_, afterMinor⟩, hminor, h⟩ := except_bind_eq_ok_iff.1 h
  obtain ⟨beforePatch, hdot', h⟩ := except_bind_eq_ok_iff.1 h
  obtain ⟨⟨_, afterPatch⟩, hpatch, h⟩ := except_bind_eq_ok_iff.1 h
  obtain ⟨⟨_, afterPreRelease, _⟩, hpreRelease, h⟩ := except_bind_eq_ok_iff.1 h
  obtain ⟨⟨_, afterBuild, _⟩, hbuild, h⟩ := except_bind_eq_ok_iff.1 h
  dsimp only at h
  cases afterBuild with
  | cons c cs => cases h
  | nil =>
    obtain ⟨hpasses, hfirst⟩ := exists_of_number hmajor
    have hall : Passes text.toList [] :=
      hpasses.trans <| (passes_of_dot hdot).trans <| (exists_of_number hminor).1.trans <|
        (passes_of_dot hdot').trans <| (exists_of_number hpatch).1.trans <|
          (passes_of_marked (by decide) hpreRelease).trans (passes_of_marked (by decide) hbuild)
    exact accepts_of_passes hall hfirst

end Version
end WireCodec
