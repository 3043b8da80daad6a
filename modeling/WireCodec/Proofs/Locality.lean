import WireCodec.Proofs.Layouts
import WireCodec.Schema.Size
import WireCodec.Value.Unpack

/-!
# The wire format is local

What a type looks like on the wire depends on its own definition and on those of its parts, at any
depth, and on nothing else of the schema.

* `Schema.AlikeAt s s' typeName`   two schemas read, write and measure a type in the same way;
* `Schema.layout?_eq_of_same`      the layout of a type follows from the definitions it reaches;
* `Schema.alikeAt_of_same_definitions`   so two schemas with these definitions in common are alike
                                   at the type, whatever else they declare and in which order.
-/

namespace WireCodec

namespace Schema

variable {s s' : Schema} {typeName : String}

/-- The two schemas read, write and measure a type in the same way. -/
structure AlikeAt (s s' : Schema) (typeName : String) : Prop where
  pack : ∀ v, s.pack typeName v = s'.pack typeName v
  unpack : ∀ bytes, s.unpack typeName bytes = s'.unpack typeName bytes
  encodedSize : ∀ d, s.get? typeName = some d → s.encodedSize d = s'.encodedSize d
  maxEncodedLength : ∀ d, s.get? typeName = some d →
    s.maxEncodedLength d = s'.maxEncodedLength d

theorem alikeAt_of_layout? (h : s.Consistent) (hlayout : s.layout? typeName = s'.layout? typeName) :
    s.AlikeAt s' typeName := by
  have hrequire : s.requireLayout typeName = s'.requireLayout typeName := by
    unfold requireLayout
    rw [hlayout]
  refine ⟨?_, ?_, ?_, ?_⟩
  · intro v
    unfold Schema.pack packInto
    rw [hrequire]
  · intro bytes
    unfold Schema.unpack unpackFrom
    rw [hrequire]
  · intro d hd
    obtain ⟨-, hname⟩ := h.get?_eq_some_iff.1 hd
    unfold Schema.encodedSize
    rw [hname, hlayout]
  · intro d hd
    obtain ⟨-, hname⟩ := h.get?_eq_some_iff.1 hd
    unfold Schema.maxEncodedLength
    rw [hname, hlayout]

theorem layout?_eq_of_same (h : s.Consistent) (h' : s'.Consistent)
    (hsame : ∀ n, Relation.ReflTransGen s.Mentions typeName n → s.get? n = s'.get? n) :
    s.layout? typeName = s'.layout? typeName := by
  -- Induction on the parts of the type: what a part reaches is reached from the type.
  induction typeName using h.wellFounded_mentions.induction with
  | _ typeName ih =>
    have hget : s.get? typeName = s'.get? typeName := hsame typeName .refl
    cases hd : s.get? typeName with
    | none =>
      rw [hd] at hget
      rw [h.layout?_eq_none hd, h'.layout?_eq_none hget.symm]
    | some d =>
      rw [hd] at hget
      obtain ⟨layout, hlayout, hdef⟩ := h.layout?_of_get? hd
      obtain ⟨layout', hlayout', hdef'⟩ := h'.layout?_of_get? hget.symm
      have hparts : ∀ n ∈ d.references, s.layout? n = s'.layout? n := by
        intro n hn
        have hmentions : s.Mentions typeName n := ⟨d, hd, hn⟩
        exact ih n hmentions fun m hm => hsame m (.head hmentions hm)
      rw [Layout.ofTypeDef?_congr hparts, hdef'] at hdef
      rw [hlayout, hlayout', hdef]

theorem Consistent.exists_get?_of_reaches (h : s.Consistent) {n : String} {d : TypeDef}
    (hd : s.get? typeName = some d) (hn : Relation.ReflTransGen s.Mentions typeName n) :
    ∃ e, s.get? n = some e := by
  induction hn with
  | refl => exact ⟨d, hd⟩
  | tail _ hmentions _ =>
    obtain ⟨e, he, hn⟩ := hmentions
    exact h.exists_get? he hn

/-- A schema that declares at least the same types finds the same definitions. -/
theorem Consistent.get?_of_subset (h : s.Consistent) (h' : s'.Consistent)
    (hsub : s.declared ⊆ s'.declared) {n : String} {d : TypeDef} (hd : s.get? n = some d) :
    s'.get? n = some d := by
  obtain ⟨hmem, hname⟩ := h.get?_eq_some_iff.1 hd
  refine h'.get?_eq_some_iff.2 ⟨?_, hname⟩
  rcases List.mem_append.1 hmem with hmem | hmem
  · exact List.mem_append_left s'.declared hmem
  · exact List.mem_append_right builtins (hsub hmem)

/-- Two schemas agree on a type as soon as they agree on the definitions that it reaches.  So a
schema keeps the encodings of its types when its declarations are reordered and others are
added. -/
theorem alikeAt_of_same_definitions {name version name' version' : String}
    {declared declared' : List TypeDef} (h : build name version declared = .ok s)
    (h' : build name' version' declared' = .ok s') :
    (∀ typeName,
      (∀ n, Relation.ReflTransGen s.Mentions typeName n → s.get? n = s'.get? n) →
        s.AlikeAt s' typeName) ∧
    (declared ⊆ declared' → ∀ d ∈ builtins ++ declared, s.AlikeAt s' d.name) := by
  have hs := consistent_of_build h
  have hs' := consistent_of_build h'
  obtain ⟨-, -, -, -, rfl, -⟩ := build_eq_ok_iff.1 h
  obtain ⟨-, -, -, -, rfl, -⟩ := build_eq_ok_iff.1 h'
  have hlocal : ∀ typeName,
      (∀ n, Relation.ReflTransGen s.Mentions typeName n → s.get? n = s'.get? n) →
        s.AlikeAt s' typeName :=
    fun typeName hsame => alikeAt_of_layout? hs (layout?_eq_of_same hs hs' hsame)
  refine ⟨hlocal, ?_⟩
  intro hsub d hd
  have hget : s.get? d.name = some d := hs.get?_eq_some_iff.2 ⟨hd, rfl⟩
  refine hlocal d.name fun n hn => ?_
  obtain ⟨e, he⟩ := hs.exists_get?_of_reaches hget hn
  rw [he, hs.get?_of_subset hs' hsub he]

end Schema

/-- The declarations of `definitions` in the other order, with an unrelated type between them. -/
def Sample.Pairs.extended : List TypeDef := [
  .scalar ⟨"side", .uint8⟩,
  .scalar ⟨"angle", .float32⟩,
  .fixedArray ⟨"pair", "side", 2, Nat.two_pos⟩]

namespace Schema

open Sample

theorem alikeAt_of_same_definitions_pairs :
    ∃ s s', build "pairs" "1.0.0" Pairs.definitions = .ok s ∧
      build "scene" "2.1.0" Pairs.extended = .ok s' ∧ s.AlikeAt s' "pair" := by
  have hrun : (build "scene" "2.1.0" Pairs.extended).map Schema.name = .ok "scene" := by
    rfl
  obtain ⟨s, hs⟩ := Pairs.exists_build
  obtain ⟨s', hs', -⟩ := exists_of_map_eq_ok hrun
  have hsub : Pairs.definitions ⊆ Pairs.extended := by
    decide
  have hpair : TypeDef.fixedArray ⟨"pair", "side", 2, by decide⟩ ∈
      builtins ++ Pairs.definitions := by
    decide
  exact ⟨s, s', hs, hs', (alikeAt_of_same_definitions hs hs').2 hsub _ hpair⟩

end Schema
end WireCodec
