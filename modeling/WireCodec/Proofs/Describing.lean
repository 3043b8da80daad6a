import Mathlib.Data.List.Nodup
import WireCodec.Proofs.Acceptance
import WireCodec.Proofs.Documents
import WireCodec.Schema.Description

/-!
# Descriptions lose nothing

* `Version.text_inj`                the text of a version that was read determines it;
* `TypeDef.describe_injective`      the description of a definition determines it;
* `Schema.descriptionText_eq_iff`   schemas with one description agree in name, version and
                                    declared types.
-/

namespace WireCodec

open Text (EndsDecimal endsDecimal_nil endsDecimal_cons decimal_append_inj)

/-! ## Versions -/

namespace Version

variable {cs rest : List Char} {part last last' : Part}

/-- No plus sign is read as part of a segment. -/
theorem plus_not_mem_of_segments {done segment text : List Char}
    (h : segments part done segment cs = .ok (text, rest)) (hsegment : '+' ∉ segment)
    (hdone : '+' ∉ done) : '+' ∉ text := by
  have happend : ∀ {a b : List Char}, '+' ∉ a → '+' ∉ b → '+' ∉ a ++ b := by
    intro a b ha hb
    rw [List.mem_append]
    exact not_or.2 ⟨ha, hb⟩
  induction cs generalizing done segment with
  | nil =>
    rw [segments] at h
    split at h
    · cases h
    · split at h
      · cases h
      · cases h
        exact mt List.mem_reverse.1 (happend hsegment hdone)
  | cons c cs ih =>
    rw [segments] at h
    split at h
    · next hc =>
      have hne : '+' ≠ c := by
        intro heq
        rw [← heq] at hc
        exact absurd hc (by decide)
      exact ih h (List.not_mem_cons_of_ne_of_not_mem hne hsegment) hdone
    · split at h
      · cases h
      · split at h
        · cases h
        · split at h
          · next hdot =>
            have hne : '+' ≠ c := by
              rw [hdot]
              decide
            exact ih h List.not_mem_nil
              (List.not_mem_cons_of_ne_of_not_mem hne (happend hsegment hdone))
          · cases h
            exact mt List.mem_reverse.1 (happend hsegment hdone)

theorem plus_not_mem_of_marked {mark : Char} {text : List Char}
    (h : marked mark part last cs = .ok (text, rest, last')) : '+' ∉ text := by
  unfold marked at h
  split at h
  · cases h
    exact List.not_mem_nil
  · split at h
    · obtain ⟨⟨read, left⟩, hsegments, hok⟩ := except_bind_eq_ok_iff.1 h
      cases hok
      exact plus_not_mem_of_segments hsegments List.not_mem_nil List.not_mem_nil
    · cases h
      exact List.not_mem_nil

/-- The build metadata of a version begins at the first plus sign of its text. -/
theorem plus_not_mem_of_parse {text : String} {v : Version} (h : parse text = .ok v) :
    '+' ∉ v.preRelease.toList := by
  unfold parse at h
  rw [ite_throw_eq_ok_iff] at h
  obtain ⟨⟨_, _⟩, -, h⟩ := except_bind_eq_ok_iff.1 h.2
  obtain ⟨_, -, h⟩ := except_bind_eq_ok_iff.1 h
  obtain ⟨⟨_, _⟩, -, h⟩ := except_bind_eq_ok_iff.1 h
  obtain ⟨_, -, h⟩ := except_bind_eq_ok_iff.1 h
  obtain ⟨⟨_, _⟩, -, h⟩ := except_bind_eq_ok_iff.1 h
  obtain ⟨⟨preRelease, _, _⟩, hpreRelease, h⟩ := except_bind_eq_ok_iff.1 h
  obtain ⟨⟨_, left, _⟩, -, h⟩ := except_bind_eq_ok_iff.1 h
  dsimp only at h
  cases left with
  | cons c cs => cases h
  | nil =>
    cases h
    rw [String.toList_ofList]
    exact plus_not_mem_of_marked hpreRelease

/-- A part of a version behind its mark, or nothing. -/
def suffix (mark : Char) (text : String) : List Char :=
  if text = "" then [] else mark :: text.toList

theorem suffix_inj {mark : Char} {a b : String} (h : suffix mark a = suffix mark b) : a = b := by
  unfold suffix at h
  split at h
  · next ha =>
    split at h
    · next hb => rw [ha, hb]
    · cases h
  · split at h
    · cases h
    · exact String.toList_inj.1 (List.cons.inj h).2

theorem toList_text (v : Version) :
    v.text.toList = (toString v.major).toList ++ '.' :: ((toString v.minor).toList ++
      '.' :: ((toString v.patch).toList ++ (suffix '-' v.preRelease ++ suffix '+' v.build))) := by
  have hpart : ∀ (mark : Char) (text : String),
      (if text = "" then "" else String.singleton mark ++ text).toList = suffix mark text := by
    intro mark text
    unfold suffix
    split
    · rfl
    · simp
  rw [← hpart '-', ← hpart '+']
  simp [text]

theorem endsDecimal_suffixes (a b : String) : EndsDecimal (suffix '-' a ++ suffix '+' b) := by
  unfold suffix
  split
  · split
    · exact endsDecimal_nil
    · exact endsDecimal_cons rfl _
  · exact endsDecimal_cons rfl _

theorem takeWhile_suffixes {a : String} (ha : '+' ∉ a.toList) (b : String) :
    (suffix '-' a ++ suffix '+' b).takeWhile (· ≠ '+') = suffix '-' a := by
  have hpre : ∀ c ∈ suffix '-' a, decide (c ≠ '+') = true := by
    intro c hc
    refine decide_eq_true ?_
    rintro rfl
    unfold suffix at hc
    split at hc
    · cases hc
    · exact ha ((List.mem_cons.1 hc).resolve_left (by decide))
  rw [List.takeWhile_append_of_pos hpre]
  have hbuild : (suffix '+' b).takeWhile (· ≠ '+') = [] := by
    unfold suffix
    split <;> rfl
  rw [hbuild, List.append_nil]

/-- Versions whose pre-releases have no plus sign differ in their texts. -/
theorem text_inj {v w : Version} (hv : '+' ∉ v.preRelease.toList)
    (hw : '+' ∉ w.preRelease.toList) (h : v.text = w.text) : v = w := by
  have hchars := congrArg String.toList h
  rw [toList_text, toList_text] at hchars
  obtain ⟨hmajor, hchars⟩ :=
    decimal_append_inj (endsDecimal_cons rfl _) (endsDecimal_cons rfl _) hchars
  obtain ⟨hminor, hchars⟩ :=
    decimal_append_inj (endsDecimal_cons rfl _) (endsDecimal_cons rfl _) (List.cons.inj hchars).2
  obtain ⟨hpatch, hsuffixes⟩ :=
    decimal_append_inj (endsDecimal_suffixes _ _) (endsDecimal_suffixes _ _) (List.cons.inj hchars).2
  -- A hyphen may stand in the build metadata too, so the two parts are cut at the plus sign.
  have hpre : suffix '-' v.preRelease = suffix '-' w.preRelease := by
    rw [← takeWhile_suffixes hv v.build, hsuffixes, takeWhile_suffixes hw]
  rw [hpre] at hsuffixes
  have hbuild := suffix_inj (List.append_cancel_left hsuffixes)
  obtain ⟨major, minor, patch, preRelease, build⟩ := v
  obtain ⟨major', minor', patch', preRelease', build'⟩ := w
  cases hmajor
  cases hminor
  cases hpatch
  cases suffix_inj hpre
  cases hbuild
  rfl

end Version

/-! ## Definitions -/

theorem TypeKind.name_injective : Function.Injective TypeKind.name := by
  intro a b
  cases a <;> cases b <;> decide

theorem Builtin.describedName_injective : Function.Injective Builtin.describedName := by
  have hnodup : (all.map describedName).Nodup := by decide
  intro a b h
  exact List.inj_on_of_nodup_map hnodup a.mem_all b.mem_all h

theorem describeFields_injective : Function.Injective describeFields := by
  intro fields fields' h
  refine List.map_injective_iff.2 ?_ (Json.list.inj h)
  rintro ⟨name, typeName⟩ ⟨name', typeName'⟩ hfield
  simp only [Json.object.injEq, List.cons.injEq, Prod.mk.injEq, Json.text.injEq, true_and,
    and_true] at hfield
  rw [hfield.1, hfield.2]

namespace TypeDef

/-- A description tells the kind of the definition and everything it is made of. -/
theorem describe_injective : Function.Injective describe := by
  intro d d' h
  have hmembers := Json.object.inj h
  have hkind : d.kind = d'.kind :=
    TypeKind.name_injective (Json.text.inj (Prod.mk.inj (List.cons.inj hmembers).1).2)
  have hrest : d.describedMembers = d'.describedMembers := (List.cons.inj hmembers).2
  cases d with
  | builtin b =>
    cases d' with
    | builtin b' =>
      simp only [describedMembers, List.cons.injEq, Prod.mk.injEq, Json.text.injEq, true_and,
        and_true] at hrest
      rw [Builtin.describedName_injective hrest]
    | _ => cases hkind
  | scalar t =>
    cases d' with
    | scalar t' =>
      obtain ⟨name, builtin⟩ := t
      obtain ⟨name', builtin'⟩ := t'
      simp only [describedMembers, List.cons.injEq, Prod.mk.injEq, Json.text.injEq, true_and,
        and_true] at hrest
      rw [hrest.1, Builtin.describedName_injective hrest.2]
    | _ => cases hkind
  | enumeration t =>
    cases d' with
    | enumeration t' =>
      obtain ⟨name, labels, _, _, _⟩ := t
      obtain ⟨name', labels', _, _, _⟩ := t'
      simp only [describedMembers, List.cons.injEq, Prod.mk.injEq, Json.text.injEq,
        Json.list.injEq, true_and, and_true] at hrest
      obtain ⟨rfl, hlabels⟩ := hrest
      cases List.map_injective_iff.2 (fun _ _ => Json.text.inj) hlabels
      rfl
    | _ => cases hkind
  | composite t =>
    cases d' with
    | composite t' =>
      obtain ⟨name, fields, _⟩ := t
      obtain ⟨name', fields', _⟩ := t'
      simp only [describedMembers, List.cons.injEq, Prod.mk.injEq, Json.text.injEq, true_and,
        and_true] at hrest
      obtain ⟨rfl, hfields⟩ := hrest
      cases describeFields_injective hfields
      rfl
    | _ => cases hkind
  | fixedArray t =>
    cases d' with
    | fixedArray t' =>
      obtain ⟨name, element, count, _⟩ := t
      obtain ⟨name', element', count', _⟩ := t'
      simp only [describedMembers, List.cons.injEq, Prod.mk.injEq, Json.text.injEq,
        Json.number.injEq, true_and, and_true] at hrest
      obtain ⟨rfl, rfl, rfl⟩ := hrest
      rfl
    | _ => cases hkind
  | variableArray t =>
    cases d' with
    | variableArray t' =>
      obtain ⟨name, element, max, sizeType, _, _, _⟩ := t
      obtain ⟨name', element', max', sizeType', _, _, _⟩ := t'
      simp only [describedMembers, List.cons.injEq, Prod.mk.injEq, Json.text.injEq,
        Json.number.injEq, true_and, and_true] at hrest
      obtain ⟨rfl, rfl, rfl, hsize⟩ := hrest
      cases Builtin.describedName_injective hsize
      rfl
    | _ => cases hkind
  | group t =>
    cases d' with
    | group t' =>
      obtain ⟨name, variants, _, _, _⟩ := t
      obtain ⟨name', variants', _, _, _⟩ := t'
      simp only [describedMembers, List.cons.injEq, Prod.mk.injEq, Json.text.injEq, true_and,
        and_true] at hrest
      obtain ⟨rfl, hvariants⟩ := hrest
      cases describeFields_injective hvariants
      rfl
    | _ => cases hkind

end TypeDef

/-! ## Schemas -/

namespace Schema

/-- Two schemas have the same description exactly if they agree in name, version and declared
types, whatever characters their labels, fields and variants have. -/
theorem descriptionText_eq_iff {name version name' version' : String}
    {declared declared' : List TypeDef} {s s' : Schema}
    (hs : build name version declared = .ok s) (hs' : build name' version' declared' = .ok s') :
    s.descriptionText = s'.descriptionText ↔
      s.name = s'.name ∧ s.version = s'.version ∧ s.declared = s'.declared := by
  obtain ⟨-, hversion, -⟩ := build_eq_ok_iff.1 hs
  obtain ⟨-, hversion', -⟩ := build_eq_ok_iff.1 hs'
  constructor
  · intro h
    have hmembers := Json.object.inj (Json.pretty_injective h)
    simp only [List.cons.injEq, Prod.mk.injEq, Json.text.injEq, Json.list.injEq, true_and,
      and_true] at hmembers
    obtain ⟨hname, htext, htypes⟩ := hmembers
    refine ⟨hname, ?_, List.map_injective_iff.2 TypeDef.describe_injective htypes⟩
    exact Version.text_inj (Version.plus_not_mem_of_parse hversion)
      (Version.plus_not_mem_of_parse hversion') htext
  · rintro ⟨hname, hversions, htypes⟩
    unfold descriptionText describe
    rw [hname, hversions, htypes]

end Schema

/-! Two fields, and one field whose name is what stands between theirs in a description. -/

theorem Sample.Lookalike.names_nodup :
    (fieldNames [⟨"a", "uint8"⟩, ⟨"b", "uint8"⟩]).Nodup := by
  decide

def Sample.Lookalike.pair : List TypeDef := [
  .composite ⟨"pair", [⟨"a", "uint8"⟩, ⟨"b", "uint8"⟩], Lookalike.names_nodup⟩]

def Sample.Lookalike.single : List TypeDef := [
  .composite ⟨"pair", [⟨"a\",\n          \"type_name\": \"uint8\"\n        \x7d,\n        \x7b\n" ++
    "          \"name\": \"b", "uint8"⟩], List.nodup_singleton _⟩]

namespace Schema

open Sample

theorem descriptionText_eq_iff_lookalike :
    ∃ s s', build "pairs" "1.0.0" Lookalike.pair = .ok s ∧
      build "pairs" "1.0.0" Lookalike.single = .ok s' ∧ s.descriptionText ≠ s'.descriptionText := by
  have hpair : (build "pairs" "1.0.0" Lookalike.pair).map declared = .ok Lookalike.pair := by
    rfl
  have hsingle : (build "pairs" "1.0.0" Lookalike.single).map declared = .ok Lookalike.single := by
    rfl
  obtain ⟨s, hs, hdeclared⟩ := exists_of_map_eq_ok hpair
  obtain ⟨s', hs', hdeclared'⟩ := exists_of_map_eq_ok hsingle
  refine ⟨s, s', hs, hs', ?_⟩
  intro h
  obtain ⟨-, -, hsame⟩ := (descriptionText_eq_iff hs hs').1 h
  rw [hdeclared, hdeclared'] at hsame
  exact absurd (congrArg (List.map TypeDef.references) hsame) (by decide)

end Schema
end WireCodec
