import WireCodec.Proofs.Casing

/-!
# Selecting a language

A language is asked for by a text in any letter case.  Only the text is lowered before it is
compared with names and aliases, and the first language that answers to it is taken.  So a language
is found by its own name unless the name has a capital letter or is an alias of a language in front
of it.

* `Registry.Call`, `Registry.after`     the registries that calls lead to from the empty one;
* `Registry.Ordered`                    the languages stand in the order of their names;
* `Registry.ordered_after`              so they do after any calls;
* `Registry.language_eq_ok_iff`         which language a text selects;
* `Registry.language_self_iff`          when a language is selected by its own name;
* `Registry.exists_language_not_self`   two registries in which one is not.
-/

namespace WireCodec

/-! ## Lower case -/

theorem toNat_lt_of_isUpper {c : Char} (h : c.isUpper = true) : c.toNat < 128 :=
  Text.toNat_lt_of_isAlpha (Bool.or_eq_true_iff.2 (.inl h))

theorem toLower_of_not_isUpper {c : Char} (h : c.isUpper = false) : c.toLower = c :=
  dif_neg (of_decide_eq_false h)

theorem toLower_eq_self_iff {c : Char} : c.toLower = c ↔ c.isUpper = false := by
  refine ⟨fun h => ?_, toLower_of_not_isUpper⟩
  cases hc : c.isUpper with
  | false => rfl
  | true =>
    refine absurd h ?_
    exact Text.of_forall_ascii (fun c => c.isUpper = true → c.toLower ≠ c) (by decide)
      (toNat_lt_of_isUpper hc) hc

theorem not_toLower_lt (c : Char) : ¬ c.toLower < c := by
  cases hc : c.isUpper with
  | false =>
    rw [toLower_of_not_isUpper hc]
    exact Char.lt_irrefl c
  | true =>
    exact Text.of_forall_ascii (fun c => ¬ c.toLower < c) (by decide) (toNat_lt_of_isUpper hc)

theorem asciiLower_eq_self_iff {s : String} :
    asciiLower s = s ↔ ∀ c ∈ s.toList, c.isUpper = false := by
  unfold asciiLower
  rw [← String.toList_inj, String.toList_ofList]
  have hmap := List.map_inj_left (l := s.toList) (f := Char.toLower) (g := id)
  rw [List.map_id] at hmap
  rw [hmap]
  exact forall₂_congr fun c _ => toLower_eq_self_iff

theorem not_asciiLower_lt (s : String) : ¬ asciiLower s < s := by
  unfold asciiLower
  rw [String.lt_iff, String.toList_ofList]
  induction s.toList with
  | nil => exact List.not_lt_nil []
  | cons c cs ih =>
    rw [List.map_cons, List.cons_lt_cons_iff]
    rintro (h | ⟨-, h⟩)
    · exact not_toLower_lt c h
    · exact ih h

/-! ## Registries -/

namespace Registry

inductive Call
  | emitter (language : String) (e : Emitter)
  | builder (language : String) (kind : TypeKind) (b : Builder)

def Call.answer (r : Registry) : Call → Except TargetError Registry
  | .emitter language e => r.registerEmitter language e
  | .builder language kind b => r.registerBuilder language kind b

/-- The registry behind a call; one that is refused changes nothing. -/
def Call.run (r : Registry) (call : Call) : Registry :=
  match call.answer r with
  | .ok r' => r'
  | .error _ => r

/-- The registry behind calls, the first of which finds it empty. -/
def after (calls : List Call) : Registry :=
  calls.foldl Call.run empty

/-- Languages stand in the order of their names, each of them once. -/
def Ordered (r : Registry) : Prop :=
  r.languages.Pairwise (· < ·)

section
variable {r : Registry} {language other n : String} {e e' : Emitter}
variable {emitters : List (String × Emitter)}

theorem mem_insertEmitter (h : other ∈ (insertEmitter language e emitters).map Prod.fst) :
    other = language ∨ other ∈ emitters.map Prod.fst := by
  induction emitters with
  | nil => exact List.mem_cons.1 h
  | cons entry emitters ih =>
    obtain ⟨name, e'⟩ := entry
    rw [insertEmitter] at h
    split at h
    · exact List.mem_cons.1 h
    · rcases List.mem_cons.1 h with hname | h
      · exact .inr (hname ▸ List.mem_cons_self)
      · exact (ih h).imp_right (List.mem_cons_of_mem _)

theorem pairwise_insertEmitter (h : (emitters.map Prod.fst).Pairwise (· < ·))
    (hnew : emitters.lookup language = none) :
    ((insertEmitter language e emitters).map Prod.fst).Pairwise (· < ·) := by
  induction emitters with
  | nil => exact List.pairwise_singleton _ _
  | cons entry emitters ih =>
    obtain ⟨name, e'⟩ := entry
    obtain ⟨hfront, hrest⟩ := List.pairwise_cons.1 h
    rw [insertEmitter]
    split
    · next hlt =>
      refine List.pairwise_cons.2 ⟨?_, h⟩
      intro other hother
      rcases List.mem_cons.1 hother with hname | hother
      · exact hname ▸ hlt
      · exact Std.lt_trans hlt (hfront other hother)
    · next hge =>
      cases hname : language == name with
      | true =>
        rw [List.lookup_cons, hname] at hnew
        cases hnew
      | false =>
        rw [List.lookup_cons, hname] at hnew
        have hlt : name < language :=
          Std.lt_of_le_of_ne (Std.not_lt.1 hge) (beq_eq_false_iff_ne.1 hname).symm
        refine List.pairwise_cons.2 ⟨?_, ih hrest hnew⟩
        intro other hother
        rcases mem_insertEmitter hother with hother | hother
        · exact hother ▸ hlt
        · exact hfront other hother

theorem Ordered.registerEmitter {r' : Registry} (h : r.Ordered)
    (hregister : r.registerEmitter language e = .ok r') : r'.Ordered := by
  unfold Registry.registerEmitter at hregister
  split at hregister
  · cases hregister
  · next hnew =>
    cases hregister
    exact pairwise_insertEmitter h hnew

theorem Ordered.registerBuilder {r' : Registry} {kind : TypeKind} {b : Builder} (h : r.Ordered)
    (hregister : r.registerBuilder language kind b = .ok r') : r'.Ordered := by
  unfold Registry.registerBuilder at hregister
  split at hregister
  · cases hregister
  · cases hregister
    exact h

theorem Ordered.run (h : r.Ordered) (call : Call) : (call.run r).Ordered := by
  unfold Call.run
  split
  · next r' hanswer =>
    cases call with
    | emitter language e => exact h.registerEmitter hanswer
    | builder language kind b => exact h.registerBuilder hanswer
  · exact h

theorem Ordered.foldl_run (h : r.Ordered) (calls : List Call) :
    (calls.foldl Call.run r).Ordered := by
  induction calls generalizing r with
  | nil => exact h
  | cons call calls ih => exact ih (h.run call)

/-- Whatever is registered, in whatever order, the languages stand in the order of their names. -/
theorem ordered_after (calls : List Call) : (after calls).Ordered :=
  Ordered.foldl_run (r := empty) List.Pairwise.nil calls

/-! ## Look-ups -/

/-- The entries in front of one are those with a smaller name. -/
theorem Ordered.mem_front_iff {front back : List (String × Emitter)} (h : r.Ordered)
    (hr : r.emitters = front ++ (language, e) :: back) {entry : String × Emitter}
    (hentry : entry ∈ r.emitters) : entry ∈ front ↔ entry.1 < language := by
  unfold Ordered languages at h
  rw [hr, List.map_append, List.map_cons, List.pairwise_append, List.pairwise_cons] at h
  obtain ⟨-, ⟨hback, -⟩, hfront⟩ := h
  refine ⟨fun hmem => hfront _ (List.mem_map_of_mem hmem) _ List.mem_cons_self, fun hlt => ?_⟩
  rw [hr, List.mem_append, List.mem_cons] at hentry
  rcases hentry with hmem | rfl | hmem
  · exact hmem
  · exact absurd hlt (String.lt_irrefl _)
  · exact absurd hlt (String.lt_asymm (hback _ (List.mem_map_of_mem hmem)))

theorem Ordered.emitter_eq_ok_iff (h : r.Ordered) :
    r.emitter language = .ok e ↔ (language, e) ∈ r.emitters := by
  have hlookup : r.emitter language = .ok e ↔ r.emitters.lookup language = some e := by
    unfold Registry.emitter
    split <;> simp [*]
  rw [hlookup, List.lookup_eq_some_iff]
  refine ⟨?_, fun hmem => ?_⟩
  · rintro ⟨front, back, hr, -⟩
    exact hr ▸ List.mem_append_right _ List.mem_cons_self
  · obtain ⟨front, back, hr⟩ := List.append_of_mem hmem
    refine ⟨front, back, hr, fun entry hentry => ?_⟩
    have hlt : entry.1 < language :=
      (h.mem_front_iff hr (hr ▸ List.mem_append_left _ hentry)).1 hentry
    rw [bne_iff_ne]
    rintro rfl
    exact String.lt_irrefl _ hlt

/-- A language answers to a text in lower case that is its name or one of its aliases. -/
def Answers (language : String) (e : Emitter) (wanted : String) : Prop :=
  language = wanted ∨ wanted ∈ e.aliases

def answering (wanted : String) (entry : String × Emitter) : Bool :=
  entry.1 = wanted || wanted ∈ entry.2.aliases

theorem answering_iff (wanted language : String) (e : Emitter) :
    answering wanted (language, e) = true ↔ Answers language e wanted := by
  rw [answering, Bool.or_eq_true, decide_eq_true_iff, decide_eq_true_iff]
  rfl

/-- A text selects the first language that answers to its lower case. -/
theorem Ordered.language_eq_ok_iff (h : r.Ordered) :
    r.language n = .ok language ↔
      ∃ e, r.emitter language = .ok e ∧ Answers language e (asciiLower n) ∧
        ∀ other e', r.emitter other = .ok e' → other < language →
          ¬ Answers other e' (asciiLower n) := by
  have hfind : r.language n = .ok language ↔ ∃ e,
      r.emitters.find? (answering (asciiLower n)) = some (language, e) := by
    unfold Registry.language
    dsimp only
    split
    · next l e₁ hsome =>
      have hfound : r.emitters.find? (answering (asciiLower n)) = some (l, e₁) := hsome
      simp [hfound]
    · next hnone =>
      have hfound : r.emitters.find? (answering (asciiLower n)) = none := hnone
      simp [hfound]
  rw [hfind]
  refine exists_congr fun e => ?_
  rw [List.find?_eq_some_iff_append, h.emitter_eq_ok_iff]
  constructor
  · rintro ⟨hself, front, back, hr, hfront⟩
    have hmem : (language, e) ∈ r.emitters := hr ▸ List.mem_append_right _ List.mem_cons_self
    refine ⟨hmem, (answering_iff _ _ _).1 hself, fun other e' hother hlt hanswer => ?_⟩
    have hin := (h.mem_front_iff hr (h.emitter_eq_ok_iff.1 hother)).2 hlt
    have hnot := hfront (other, e') hin
    rw [Bool.not_eq_true'] at hnot
    exact Bool.eq_false_iff.1 hnot ((answering_iff _ _ _).2 hanswer)
  · rintro ⟨hmem, hself, hless⟩
    obtain ⟨front, back, hr⟩ := List.append_of_mem hmem
    refine ⟨(answering_iff _ _ _).2 hself, front, back, hr, fun entry hentry => ?_⟩
    have hin : entry ∈ r.emitters := hr ▸ List.mem_append_left _ hentry
    have hlt := (h.mem_front_iff hr hin).1 hentry
    rw [Bool.not_eq_true', Bool.eq_false_iff]
    exact fun hanswer =>
      hless entry.1 entry.2 (h.emitter_eq_ok_iff.2 hin) hlt ((answering_iff _ _ _).1 hanswer)

end

/-- A language is selected by its own name, in any letter case, exactly if the name has no capital
letter or its lower case is an alias of the language, and no language in front of it has that lower
case for an alias. -/
theorem language_self_iff (calls : List Call) {language n : String} {e : Emitter}
    (hlanguage : (after calls).emitter language = .ok e)
    (hn : asciiLower n = asciiLower language) :
    (after calls).language n = .ok language ↔
      ((∀ c ∈ language.toList, c.isUpper = false) ∨ asciiLower language ∈ e.aliases) ∧
        ∀ other e', (after calls).emitter other = .ok e' → other < language →
          asciiLower language ∉ e'.aliases := by
  rw [(ordered_after calls).language_eq_ok_iff, hn]
  have hself : Answers language e (asciiLower language) ↔
      (∀ c ∈ language.toList, c.isUpper = false) ∨ asciiLower language ∈ e.aliases := by
    unfold Answers
    rw [eq_comm, asciiLower_eq_self_iff]
  -- a smaller name is no text's lower case unless it is smaller than the text
  have hother : ∀ other e', other < language →
      (Answers other e' (asciiLower language) ↔ asciiLower language ∈ e'.aliases) := by
    intro other e' hlt
    refine or_iff_right ?_
    rintro rfl
    exact not_asciiLower_lt language hlt
  constructor
  · rintro ⟨e₁, he₁, hanswers, hfirst⟩
    cases hlanguage.symm.trans he₁
    exact ⟨hself.1 hanswers, fun other e' he' hlt halias =>
      hfirst other e' he' hlt ((hother other e' hlt).2 halias)⟩
  · rintro ⟨hanswers, hfirst⟩
    exact ⟨e, hlanguage, hself.2 hanswers, fun other e' he' hlt hanswer =>
      hfirst other e' he' hlt ((hother other e' hlt).1 hanswer)⟩

/-- Letter case does not matter in the name of a backend. -/
theorem language_ruby_after_backends :
    (after (backends.map fun b => .emitter b.language b.emitter)).emitter "ruby" =
        .ok Target.Ruby.emitter ∧
      asciiLower "RuBy" = asciiLower "ruby" ∧
      (after (backends.map fun b => .emitter b.language b.emitter)).language "RuBy" =
        .ok "ruby" := by
  have hsmall : ∀ c ∈ "ruby".toList, c.isUpper = false := asciiLower_eq_self_iff.1 (by decide)
  refine ⟨rfl, by decide, (language_self_iff _ rfl (by decide)).2 ⟨.inl hsmall, ?_⟩⟩
  intro other e' he' hlt
  rw [(ordered_after _).emitter_eq_ok_iff] at he'
  change (other, e') ∈ [("c", Target.C.emitter), ("ruby", Target.Ruby.emitter),
    ("rust", Target.Rust.emitter)] at he'
  simp only [List.mem_cons, List.not_mem_nil, or_false, Prod.mk.injEq] at he'
  obtain ⟨-, rfl⟩ | ⟨rfl, -⟩ | ⟨rfl, -⟩ := he'
  · exact List.not_mem_nil
  · exact absurd hlt (by decide)
  · exact absurd hlt (by decide)

/-- A name with a capital letter selects nothing, and one that is an alias of a language in front
selects that language. -/
theorem exists_language_not_self :
    (∃ calls language e, (after calls).emitter language = .ok e ∧
      (after calls).language language = .error (.unsupportedTarget language none)) ∧
    ∃ calls language other e, (after calls).emitter language = .ok e ∧
      (∀ c ∈ language.toList, c.isUpper = false) ∧ other ≠ language ∧
      (after calls).language language = .ok other := by
  refine ⟨⟨[.emitter "Zig" Target.Rust.emitter], "Zig", Target.Rust.emitter, rfl, rfl⟩, ?_⟩
  exact ⟨[.emitter "rs" Target.C.emitter, .emitter "oxide" Target.Rust.emitter], "rs", "oxide",
    Target.C.emitter, rfl, asciiLower_eq_self_iff.1 (by decide), by decide, rfl⟩

end Registry
end WireCodec
