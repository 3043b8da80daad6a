import Mathlib.Logic.Basic
import WireCodec.Proofs.Runs
import WireCodec.Target.Backends

/-!
# What a registry holds

Registering a backend adds one emitter and a builder for every kind, and leaves the other
languages as they are.

* `Registry.Offers r b`              look-ups in `r` find the emitter and all builders of `b`;
* `Registry.registerBackend_eq_ok`   a backend of a new language is registered, and then offered;
* `Registry.exists_withBackends`     the registry of all languages offers each of them.
-/

namespace WireCodec

theorem TypeKind.mem_all (kind : TypeKind) : kind ∈ TypeKind.all := by
  cases kind <;> decide

namespace Registry

variable {r r' : Registry} {b : Backend} {language other : String}

structure Lacks (r : Registry) (language : String) : Prop where
  emitter : r.emitters.lookup language = none
  builder : ∀ kind, r.builders.lookup (language, kind) = none

/-- Look-ups find the emitter and the builders of a backend. -/
structure Offers (r : Registry) (b : Backend) : Prop where
  emitter : r.emitters.lookup b.language = some b.emitter
  builder : ∀ kind, r.builders.lookup (b.language, kind) = some (b.builder kind)

structure AgreeOn (r r' : Registry) (language : String) : Prop where
  emitter : r'.emitters.lookup language = r.emitters.lookup language
  builder : ∀ kind, r'.builders.lookup (language, kind) = r.builders.lookup (language, kind)

theorem Lacks.of_agreeOn (h : r.Lacks language) (hagree : r.AgreeOn r' language) :
    r'.Lacks language :=
  ⟨hagree.emitter.trans h.emitter, fun kind => (hagree.builder kind).trans (h.builder kind)⟩

theorem Offers.of_agreeOn (h : r.Offers b) (hagree : r.AgreeOn r' b.language) : r'.Offers b :=
  ⟨hagree.emitter.trans h.emitter, fun kind => (hagree.builder kind).trans (h.builder kind)⟩

theorem Offers.emitter_eq (h : r.Offers b) : r.emitter b.language = .ok b.emitter := by
  unfold Registry.emitter
  rw [h.emitter]

theorem Offers.builder_eq (h : r.Offers b) (kind : TypeKind) :
    r.builder b.language kind = .ok (b.builder kind) := by
  unfold Registry.builder
  rw [h.builder kind]

theorem AgreeOn.trans {r'' : Registry} (h : r.AgreeOn r' language)
    (h' : r'.AgreeOn r'' language) : r.AgreeOn r'' language :=
  ⟨h'.emitter.trans h.emitter, fun kind => (h'.builder kind).trans (h.builder kind)⟩

theorem lacks_empty (language : String) : empty.Lacks language :=
  ⟨rfl, fun _ => rfl⟩

/-! ## Emitters -/

theorem lookup_insertEmitter_self {emitter : Emitter} {emitters : List (String × Emitter)}
    (hnew : emitters.lookup language = none) :
    (insertEmitter language emitter emitters).lookup language = some emitter := by
  induction emitters with
  | nil => exact List.lookup_cons_self
  | cons entry emitters ih =>
    obtain ⟨name, e⟩ := entry
    rw [insertEmitter]
    split
    · exact List.lookup_cons_self
    · cases hname : language == name with
      | true =>
        rw [List.lookup_cons, hname] at hnew
        cases hnew
      | false =>
        rw [List.lookup_cons, hname] at hnew ⊢
        exact ih hnew

theorem lookup_insertEmitter_of_ne {emitter : Emitter} {emitters : List (String × Emitter)}
    (hne : other ≠ language) :
    (insertEmitter language emitter emitters).lookup other = emitters.lookup other := by
  have hother : (other == language) = false := beq_eq_false_iff_ne.2 hne
  induction emitters with
  | nil =>
    rw [insertEmitter, List.lookup_cons, hother]
  | cons entry emitters ih =>
    obtain ⟨name, e⟩ := entry
    rw [insertEmitter]
    split
    · rw [List.lookup_cons, hother]
    · rw [List.lookup_cons, List.lookup_cons, ih]

/-! ## Builders -/

/-- Builders of a language are registered for distinct kinds that have none yet. -/
theorem registerBuilders_eq_ok {kinds : List TypeKind} (hdistinct : kinds.Nodup)
    (hfree : ∀ kind ∈ kinds, r.builders.lookup (b.language, kind) = none) :
    ∃ builders, registerBuilders b kinds r = .ok () { r with builders } ∧
      (∀ kind ∈ kinds, builders.lookup (b.language, kind) = some (b.builder kind)) ∧
      ∀ language kind, language ≠ b.language ∨ kind ∉ kinds →
        builders.lookup (language, kind) = r.builders.lookup (language, kind) := by
  induction kinds generalizing r with
  | nil =>
    refine ⟨r.builders, rfl, ?_, fun _ _ _ => rfl⟩
    intro kind hkind
    cases hkind
  | cons first kinds ih =>
    obtain ⟨hnew, hdistinct⟩ := List.nodup_cons.1 hdistinct
    obtain ⟨hfirst, hfree⟩ := List.forall_mem_cons.1 hfree
    let r₁ : Registry := { r with builders := ((b.language, first), b.builder first) :: r.builders }
    have hold : ∀ language kind, language ≠ b.language ∨ kind ≠ first →
        r₁.builders.lookup (language, kind) = r.builders.lookup (language, kind) := by
      intro language kind hne
      have hkey : ((language, kind) == (b.language, first)) = false := by
        rw [beq_eq_false_iff_ne, ne_eq, Prod.mk.injEq, not_and_or]
        exact hne
      show List.lookup (language, kind) (_ :: r.builders) = _
      rw [List.lookup_cons, hkey]
    have hfree₁ : ∀ kind ∈ kinds, r₁.builders.lookup (b.language, kind) = none := by
      intro kind hkind
      rw [hold b.language kind (.inr fun heq => hnew (heq ▸ hkind))]
      exact hfree kind hkind
    obtain ⟨builders, hrun, hfound, hrest⟩ := ih hdistinct hfree₁
    refine ⟨builders, ?_, ?_, ?_⟩
    · have hregister : r.registerBuilder b.language first (b.builder first) = .ok r₁ := by
        unfold registerBuilder
        rw [hfirst]
      unfold registerBuilders
      rw [hregister]
      exact hrun
    · refine List.forall_mem_cons.2 ⟨?_, hfound⟩
      rw [hrest b.language first (.inr hnew)]
      exact List.lookup_cons_self
    · intro language kind hne
      rw [List.mem_cons, not_or] at hne
      rw [hrest language kind (hne.imp_right And.right)]
      exact hold language kind (hne.imp_right And.left)

/-! ## Backends -/

/-- A backend of a new language is offered once it is registered, and all other languages stay. -/
theorem registerBackend_eq_ok (h : r.Lacks b.language) :
    ∃ r', registerBackend b r = .ok () r' ∧ r'.Offers b ∧
      ∀ language ≠ b.language, r.AgreeOn r' language := by
  let emitters := insertEmitter b.language b.emitter r.emitters
  have hdistinct : TypeKind.all.Nodup := by decide
  obtain ⟨builders, hrun, hfound, hrest⟩ :=
    registerBuilders_eq_ok (r := { r with emitters }) (b := b) hdistinct
      fun kind _ => h.builder kind
  refine ⟨⟨emitters, builders⟩, ?_, ⟨?_, ?_⟩, ?_⟩
  · have hregister : r.registerEmitter b.language b.emitter = .ok { r with emitters } := by
      unfold registerEmitter
      rw [h.emitter]
    unfold registerBackend
    rw [hregister]
    exact hrun
  · exact lookup_insertEmitter_self h.emitter
  · exact fun kind => hfound kind kind.mem_all
  · intro language hne
    exact ⟨lookup_insertEmitter_of_ne hne, fun kind => hrest language kind (.inl hne)⟩

theorem forM_registerBackend_eq_ok {bs : List Backend}
    (hdistinct : (bs.map Backend.language).Nodup) (h : ∀ b ∈ bs, r.Lacks b.language) :
    ∃ r', bs.forM registerBackend r = .ok () r' ∧ (∀ b ∈ bs, r'.Offers b) ∧
      ∀ language ∉ bs.map Backend.language, r.AgreeOn r' language := by
  induction bs generalizing r with
  | nil =>
    refine ⟨r, rfl, ?_, fun _ _ => ⟨rfl, fun _ => rfl⟩⟩
    intro b hb
    cases hb
  | cons first bs ih =>
    obtain ⟨hnew, hdistinct⟩ := List.nodup_cons.1 hdistinct
    obtain ⟨hfirst, hrest⟩ := List.forall_mem_cons.1 h
    obtain ⟨r₁, hrun₁, hoffers, hkept₁⟩ := registerBackend_eq_ok hfirst
    obtain ⟨r₂, hrun₂, hall, hkept₂⟩ := ih hdistinct fun b hb =>
      (hrest b hb).of_agreeOn (hkept₁ _ fun heq => hnew (heq ▸ List.mem_map_of_mem hb))
    refine ⟨r₂, ?_, ?_, ?_⟩
    · rw [forM_cons_eq, bind_of_ok hrun₁, hrun₂]
    · exact List.forall_mem_cons.2 ⟨hoffers.of_agreeOn (hkept₂ _ hnew), hall⟩
    · intro language hlanguage
      rw [List.map_cons, List.mem_cons, not_or] at hlanguage
      obtain ⟨hne, hlanguage⟩ := hlanguage
      exact (hkept₁ language hne).trans (hkept₂ language hlanguage)

theorem exists_withBackends : ∃ r, withBackends = .ok r ∧ ∀ b ∈ backends, r.Offers b := by
  have hdistinct : (backends.map Backend.language).Nodup := by decide
  obtain ⟨r, hrun, hoffers, -⟩ :=
    forM_registerBackend_eq_ok hdistinct fun b _ => lacks_empty b.language
  refine ⟨r, ?_, hoffers⟩
  unfold withBackends
  rw [hrun]

end Registry
end WireCodec
