import WireCodec.Proofs.Coherent
import WireCodec.Schema.Basic

/-!
# Which definitions make up a schema

* `Schema.build_eq_ok_iff`      a schema is built from coherent definitions and lists them in
                                dependency order;
* `Schema.Consistent s`         what every schema that was built satisfies;
* `Schema.build_iff_coherent`   acceptance is coherence, look-ups find every definition, and the
                                order of declaration does not matter.
-/

namespace WireCodec

/-! ## Checks -/

theorem ite_throw_eq_ok_iff {ε α : Type} {c : Prop} [Decidable c] {e : ε}
    {next : Unit → Except ε α} {a : α} :
    (if c then (throw e : Except ε Unit) >>= next else next ()) = .ok a ↔
      ¬ c ∧ next () = .ok a := by
  by_cases h : c
  · rw [if_pos h]
    exact ⟨(fun hr => nomatch hr), fun hr => absurd h hr.1⟩
  · rw [if_neg h]
    exact ⟨fun hr => ⟨h, hr⟩, fun hr => hr.2⟩

theorem forM_eq_ok_iff {ε α : Type} {check : α → Except ε Unit} {xs : List α} :
    xs.forM check = .ok () ↔ ∀ x ∈ xs, check x = .ok () := by
  induction xs with
  | nil => exact ⟨fun _ x hx => absurd hx List.not_mem_nil, fun _ => rfl⟩
  | cons x xs ih =>
    show (check x >>= fun _ => xs.forM check) = .ok () ↔ _
    rw [except_bind_eq_ok_iff, List.forall_mem_cons, ← ih]
    exact ⟨fun ⟨_, hx, hxs⟩ => ⟨hx, hxs⟩, fun ⟨hx, hxs⟩ => ⟨_, hx, hxs⟩⟩

namespace Builtin

theorem mem_all (b : Builtin) : b ∈ all := by
  cases b <;> decide

theorem ofName?_eq_none_iff {name : String} :
    ofName? name = none ↔ ∀ b : Builtin, name ≠ b.name := by
  unfold ofName?
  rw [List.find?_eq_none]
  refine ⟨?_, ?_⟩
  · intro h b hb
    exact h b b.mem_all (decide_eq_true hb.symm)
  · intro h b _ hb
    exact h b (of_decide_eq_true hb).symm

end Builtin

namespace Schema

/-! ## Schemas -/

variable {name version : String} {declared : List TypeDef} {s : Schema}

theorem checkName_eq_ok_iff {seen : List String} {d : TypeDef} :
    checkName seen d = .ok () ↔
      d.kind ≠ .builtin ∧ Text.isIdentifier d.name = true ∧ (∀ b : Builtin, d.name ≠ b.name) ∧
        d.name ∉ seen := by
  unfold checkName
  rw [ite_throw_eq_ok_iff, ite_throw_eq_ok_iff, ite_throw_eq_ok_iff, ← Builtin.ofName?_eq_none_iff,
    Bool.not_eq_true', Bool.not_eq_false, Option.not_isSome_iff_eq_none]
  refine and_congr_right fun _ => and_congr_right fun _ => and_congr_right fun _ => ?_
  by_cases h : d.name ∈ seen
  · simp only [if_pos h]
    exact ⟨(fun hr => nomatch hr), fun hr => absurd h hr⟩
  · simp only [if_neg h]
    exact ⟨fun _ => h, fun _ => rfl⟩

theorem checkNames_eq_ok_iff {seen : List String} :
    checkNames seen declared = .ok () ↔
      (∀ d ∈ declared, d.kind ≠ .builtin ∧ Text.isIdentifier d.name = true ∧
        (∀ b : Builtin, d.name ≠ b.name) ∧ d.name ∉ seen) ∧
      (declared.map TypeDef.name).Nodup := by
  induction declared generalizing seen with
  | nil =>
    exact ⟨fun _ => ⟨fun d hd => absurd hd List.not_mem_nil, List.nodup_nil⟩, fun _ => rfl⟩
  | cons d declared ih =>
    rw [checkNames, List.map_cons, List.nodup_cons, List.forall_mem_cons]
    refine ⟨?_, ?_⟩
    · intro h
      obtain ⟨⟨⟩, hd, hrest⟩ := except_bind_eq_ok_iff.1 h
      obtain ⟨hrest, hdistinct⟩ := ih.1 hrest
      refine ⟨⟨checkName_eq_ok_iff.1 hd, ?_⟩, ?_, hdistinct⟩
      · intro e he
        obtain ⟨hkind, hname, hreserved, hseen⟩ := hrest e he
        exact ⟨hkind, hname, hreserved, fun h => hseen (List.mem_cons_of_mem _ h)⟩
      · intro hmem
        obtain ⟨e, he, heq⟩ := List.mem_map.1 hmem
        exact (hrest e he).2.2.2 (heq ▸ List.mem_cons_self)
    · rintro ⟨⟨hd, hrest⟩, hnew, hdistinct⟩
      refine except_bind_eq_ok_iff.2 ⟨(), checkName_eq_ok_iff.2 hd, ih.2 ⟨?_, hdistinct⟩⟩
      intro e he
      obtain ⟨hkind, hname, hreserved, hseen⟩ := hrest e he
      refine ⟨hkind, hname, hreserved, ?_⟩
      rw [List.mem_cons]
      rintro (heq | h)
      · exact hnew (heq ▸ List.mem_map_of_mem he)
      · exact hseen h

theorem checkReferences_eq_ok_iff {known : List String} {defs : List TypeDef} :
    checkReferences known defs = .ok () ↔
      ∀ d ∈ defs, ∀ name ∈ d.references, name ∈ known := by
  unfold checkReferences
  rw [forM_eq_ok_iff]
  refine forall₂_congr fun d _ => ?_
  rw [forM_eq_ok_iff]
  refine forall₂_congr fun name _ => ?_
  by_cases h : name ∈ known
  · rw [if_pos h]
    exact ⟨fun _ => h, fun _ => rfl⟩
  · rw [if_neg h]
    exact ⟨(fun hr => nomatch hr), fun hr => absurd hr h⟩

theorem mem_builtins {d : TypeDef} : d ∈ builtins ↔ ∃ b : Builtin, d = .builtin b := by
  unfold builtins
  rw [List.mem_map]
  exact ⟨fun ⟨b, _, hb⟩ => ⟨b, hb.symm⟩, fun ⟨b, hb⟩ => ⟨b, b.mem_all, hb.symm⟩⟩

theorem references_of_mem_builtins {d : TypeDef} (h : d ∈ builtins) : d.references = [] := by
  obtain ⟨b, rfl⟩ := mem_builtins.1 h
  rfl

/-- Builtins mention nothing, so that only declared definitions refer. -/
theorem refers_builtins_append : Refers (builtins ++ declared) = Refers declared := by
  funext a b
  rw [eq_iff_iff]
  refine ⟨?_, ?_⟩
  · rintro ⟨d, hd, hname, hb⟩
    rcases List.mem_append.1 hd with hd | hd
    · rw [references_of_mem_builtins hd] at hb
      cases hb
    · exact ⟨d, hd, hname, hb⟩
  · rintro ⟨d, hd, hname, hb⟩
    exact ⟨d, List.mem_append_right builtins hd, hname, hb⟩

theorem mem_names_iff {n : String} : n ∈ (builtins ++ declared).map TypeDef.name ↔
    (∃ b : Builtin, b.name = n) ∨ ∃ d ∈ declared, d.name = n := by
  rw [List.map_append, List.mem_append, List.mem_map, List.mem_map]
  refine or_congr_left ⟨?_, ?_⟩
  · rintro ⟨d, hd, hname⟩
    obtain ⟨b, rfl⟩ := mem_builtins.1 hd
    exact ⟨b, hname⟩
  · rintro ⟨b, hname⟩
    exact ⟨.builtin b, mem_builtins.2 ⟨b, rfl⟩, hname⟩

theorem nodup_builtin_names : (builtins.map TypeDef.name).Nodup := by
  decide

theorem nodup_names (hdistinct : (declared.map TypeDef.name).Nodup)
    (hunreserved : ∀ d ∈ declared, ∀ b : Builtin, d.name ≠ b.name) :
    ((builtins ++ declared).map TypeDef.name).Nodup := by
  rw [List.map_append]
  refine List.nodup_append.2 ⟨nodup_builtin_names, hdistinct, ?_⟩
  intro a ha b hb heq
  obtain ⟨d, hd, rfl⟩ := List.mem_map.1 ha
  obtain ⟨e, he, rfl⟩ := List.mem_map.1 hb
  obtain ⟨builtin, rfl⟩ := mem_builtins.1 hd
  exact hunreserved e he builtin heq.symm

theorem resolved_names_iff :
    (∀ d ∈ builtins ++ declared, ∀ n ∈ d.references,
        n ∈ (builtins ++ declared).map TypeDef.name) ↔
      ∀ d ∈ declared, ∀ n ∈ d.references,
        (∃ b : Builtin, b.name = n) ∨ ∃ e ∈ declared, e.name = n := by
  simp only [mem_names_iff]
  refine ⟨fun h d hd => h d (List.mem_append_right builtins hd), ?_⟩
  intro h d hd n hn
  rcases List.mem_append.1 hd with hd | hd
  · rw [references_of_mem_builtins hd] at hn
    cases hn
  · exact h d hd n hn

/-- The two sides of acceptance: what is checked one after the other is coherence. -/
theorem coherent_iff :
    Coherent declared ↔ checkNames [] declared = .ok () ∧
      checkReferences ((builtins ++ declared).map TypeDef.name) (builtins ++ declared) = .ok () ∧
      ∃ order, dependencyOrder (builtins ++ declared).length
        (definitionEdges (builtins ++ declared)) = .ok order := by
  rw [checkNames_eq_ok_iff, checkReferences_eq_ok_iff]
  refine ⟨?_, ?_⟩
  · intro h
    have hresolved := resolved_names_iff.2 h.resolved
    refine ⟨⟨?_, h.distinct⟩, hresolved, ?_⟩
    · intro d hd
      exact ⟨h.declarable d hd, h.identifiers d hd, h.unreserved d hd, List.not_mem_nil⟩
    · rw [exists_order_iff (nodup_names h.distinct h.unreserved) hresolved,
        refers_builtins_append]
      intro n hcycle
      obtain ⟨m, ⟨d, hd, hname, -⟩, -⟩ := Relation.TransGen.head'_iff.1 hcycle
      exact h.acyclic d hd (hname ▸ hcycle)
  · rintro ⟨⟨hnames, hdistinct⟩, hresolved, horder⟩
    have hunreserved : ∀ d ∈ declared, ∀ b : Builtin, d.name ≠ b.name :=
      fun d hd => (hnames d hd).2.2.1
    rw [exists_order_iff (nodup_names hdistinct hunreserved) hresolved,
      refers_builtins_append] at horder
    exact {
      declarable := fun d hd => (hnames d hd).1
      unreserved := hunreserved
      identifiers := fun d hd => (hnames d hd).2.1
      distinct := hdistinct
      resolved := resolved_names_iff.1 hresolved
      acyclic := fun d _ => horder d.name }

/-- A schema is built from coherent definitions and holds them in declaration order and in
dependency order. -/
theorem build_eq_ok_iff :
    build name version declared = .ok s ↔
      Text.isIdentifier name = true ∧ Version.parse version = .ok s.version ∧
        Coherent declared ∧ s.name = name ∧ s.declared = declared ∧
        ∃ order, dependencyOrder (builtins ++ declared).length
            (definitionEdges (builtins ++ declared)) = .ok order ∧
          s.ordered = order.filterMap ((builtins ++ declared).toArray[·]?) := by
  rw [coherent_iff]
  unfold build
  rw [ite_throw_eq_ok_iff, Bool.not_eq_true', Bool.not_eq_false]
  refine and_congr_right fun _ => ?_
  refine ⟨?_, ?_⟩
  · intro h
    obtain ⟨parsed, hparsed, h⟩ := except_bind_eq_ok_iff.1 h
    obtain ⟨⟨⟩, hnames, h⟩ := except_bind_eq_ok_iff.1 h
    obtain ⟨⟨⟩, hreferences, h⟩ := except_bind_eq_ok_iff.1 h
    obtain ⟨order, horder, h⟩ := except_bind_eq_ok_iff.1 h
    have horder := resolve_eq_ok_iff.1 horder
    rw [List.size_toArray] at horder
    cases h
    refine ⟨?_, ⟨hnames, hreferences, order, horder⟩, rfl, rfl, order, horder, rfl⟩
    cases hversion : Version.parse version with
    | error e =>
      rw [hversion] at hparsed
      cases hparsed
    | ok v =>
      rw [hversion] at hparsed
      exact congrArg Except.ok (Except.ok.inj hparsed)
  · rintro ⟨hversion, ⟨hnames, hreferences, -⟩, rfl, rfl, order, horder, hordered⟩
    refine except_bind_eq_ok_iff.2 ⟨s.version, ?_, ?_⟩
    · rw [hversion]
      rfl
    refine except_bind_eq_ok_iff.2 ⟨(), hnames, ?_⟩
    refine except_bind_eq_ok_iff.2 ⟨(), hreferences, ?_⟩
    refine except_bind_eq_ok_iff.2 ⟨order, resolve_eq_ok_iff.2 ?_, ?_⟩
    · rw [List.size_toArray]
      exact horder
    · rw [← hordered]
      rfl

/-- What every schema satisfies that was built from definitions. -/
structure Consistent (s : Schema) : Prop where
  distinct : (s.definitions.map TypeDef.name).Nodup
  resolved : ∀ d ∈ s.definitions, ∀ n ∈ d.references, n ∈ s.definitions.map TypeDef.name
  listed : s.ordered.Perm s.definitions
  definedFirst : DefinedFirst [] s.ordered

theorem consistent_of_build (h : build name version declared = .ok s) : s.Consistent := by
  obtain ⟨-, -, hcoherent, -, rfl, order, horder, hordered⟩ := build_eq_ok_iff.1 h
  have hresolved := resolved_names_iff.2 hcoherent.resolved
  obtain ⟨hperm, hsettled⟩ := dependencyOrder_eq_ok (fun p q => lt_of_edge) horder
  refine ⟨nodup_names hcoherent.distinct hcoherent.unreserved, hresolved, ?_, ?_⟩
  · rw [hordered]
    have hall := hperm.filterMap ((builtins ++ s.declared).toArray[·]?)
    rw [filterMap_getElem?_range] at hall
    exact hall
  · rw [hordered]
    rw [← List.append_nil order.reverse] at hsettled
    exact definedFirst_of_settled hresolved hsettled fun q hq => absurd hq List.not_mem_nil

/-- Every name has at most one definition, which a look-up finds. -/
theorem Consistent.get?_eq_some_iff (h : s.Consistent) {n : String} {d : TypeDef} :
    s.get? n = some d ↔ d ∈ s.definitions ∧ d.name = n := by
  have hdistinct := h.distinct
  unfold get?
  refine ⟨?_, ?_⟩
  · intro hfind
    have hname := List.find?_some hfind
    exact ⟨List.mem_of_find?_eq_some hfind, of_decide_eq_true hname⟩
  · rintro ⟨hd, rfl⟩
    generalize s.definitions = defs at hd hdistinct
    induction defs with
    | nil => cases hd
    | cons e defs ih =>
      obtain ⟨hnew, hdistinct⟩ := List.nodup_cons.1 hdistinct
      rcases List.mem_cons.1 hd with rfl | hd
      · exact List.find?_cons_of_pos (decide_eq_true rfl)
      · have hne : e.name ≠ d.name := fun heq => hnew (heq ▸ List.mem_map_of_mem hd)
        rw [List.find?_cons_of_neg (by simpa using hne)]
        exact ih hd hdistinct

theorem exists_build_iff :
    (∃ s, build name version declared = .ok s) ↔
      Text.isIdentifier name = true ∧ (∃ v, Version.parse version = .ok v) ∧
        Coherent declared := by
  refine ⟨?_, ?_⟩
  · rintro ⟨s, hs⟩
    obtain ⟨hname, hversion, hcoherent, -⟩ := build_eq_ok_iff.1 hs
    exact ⟨hname, ⟨s.version, hversion⟩, hcoherent⟩
  · rintro ⟨hname, ⟨v, hversion⟩, hcoherent⟩
    obtain ⟨-, -, order, horder⟩ := coherent_iff.1 hcoherent
    exact ⟨⟨name, v, declared, _⟩,
      build_eq_ok_iff.2 ⟨hname, hversion, hcoherent, rfl, rfl, order, horder, rfl⟩⟩

/-- Definitions make up a schema if and only if they are coherent, whatever order they are declared
in.  The schema finds every definition under its name and lists each once. -/
theorem build_iff_coherent (name version : String) (declared : List TypeDef) :
    ((∃ s, build name version declared = .ok s) ↔
      Text.isIdentifier name = true ∧ (∃ v, Version.parse version = .ok v) ∧
        Coherent declared) ∧
    (∀ s, build name version declared = .ok s →
      s.name = name ∧ Version.parse version = .ok s.version ∧ s.declared = declared ∧
      (∀ d ∈ builtins ++ declared, s.get? d.name = some d ∧
        ∀ e ∈ builtins ++ declared, e.name = d.name → e = d) ∧
      (∀ n, (∀ d ∈ builtins ++ declared, d.name ≠ n) → s.get? n = none) ∧
      s.ordered.Perm (builtins ++ declared) ∧ s.ordered.Nodup) ∧
    ∀ declared', declared'.Perm declared →
      ((∃ s, build name version declared' = .ok s) ↔
        ∃ s, build name version declared = .ok s) := by
  refine ⟨exists_build_iff, ?_, ?_⟩
  · intro s hs
    have hconsistent := consistent_of_build hs
    obtain ⟨-, hversion, -, hname, rfl, -⟩ := build_eq_ok_iff.1 hs
    refine ⟨hname, hversion, rfl, ?_, ?_, hconsistent.listed, ?_⟩
    · intro d hd
      have hget : s.get? d.name = some d := hconsistent.get?_eq_some_iff.2 ⟨hd, rfl⟩
      refine ⟨hget, ?_⟩
      intro e he heq
      have hget' := hconsistent.get?_eq_some_iff.2 ⟨he, heq⟩
      rw [hget] at hget'
      exact (Option.some.inj hget').symm
    · intro n hn
      rw [Option.eq_none_iff_forall_ne_some]
      intro d hd
      obtain ⟨hmem, hname⟩ := hconsistent.get?_eq_some_iff.1 hd
      exact hn d hmem hname
    · exact hconsistent.listed.nodup_iff.2 hconsistent.distinct.of_map
  · intro declared' hperm
    rw [exists_build_iff, exists_build_iff]
    refine and_congr_right fun _ => and_congr_right fun _ => ?_
    exact ⟨Coherent.perm hperm.symm, Coherent.perm hperm⟩

end Schema

/-- A pair is declared in front of the type of its sides. -/
def Sample.Pairs.definitions : List TypeDef := [
  .fixedArray ⟨"pair", "side", 2, by decide⟩,
  .scalar ⟨"side", .uint8⟩]

theorem Sample.Pairs.exists_build :
    ∃ s, Schema.build "pairs" "1.0.0" Pairs.definitions = .ok s := by
  have hrun : (Schema.build "pairs" "1.0.0" Pairs.definitions).map Schema.name = .ok "pairs" := by
    rfl
  obtain ⟨s, hs, -⟩ := exists_of_map_eq_ok hrun
  exact ⟨s, hs⟩

namespace Schema

open Sample

theorem build_iff_coherent_pairs :
    Coherent Pairs.definitions ∧
      (∃ s, build "pairs" "1.0.0" Pairs.definitions = .ok s ∧
        s.ordered.Perm (builtins ++ Pairs.definitions) ∧ s.get? "sides" = none) ∧
      ∃ s, build "pairs" "1.0.0" Pairs.definitions.reverse = .ok s := by
  obtain ⟨s, hs⟩ := Pairs.exists_build
  obtain ⟨haccepts, hresult, hreordered⟩ := build_iff_coherent "pairs" "1.0.0" Pairs.definitions
  obtain ⟨-, -, -, -, hmissing, hlisted, -⟩ := hresult s hs
  refine ⟨(haccepts.1 ⟨s, hs⟩).2.2, ⟨s, hs, hlisted, hmissing "sides" (by decide)⟩, ?_⟩
  exact (hreordered Pairs.definitions.reverse (List.reverse_perm _)).2 ⟨s, hs⟩

end Schema
end WireCodec
