import Mathlib.Data.List.Nodup
import Std.Data.HashMap.Lemmas
import WireCodec.Target.Names

/-!
# Names of a scope

* `checkScope_eq_ok_iff`   a scope is accepted if its identifiers are distinct and none is reserved;
* `isOfNames_of_checkScope`   the faults of a scope are reserved names and collisions.
-/

namespace WireCodec

variable {language scope : String} {reserved : List String} {names : List MangledName}

theorem checkScopeAfter_eq_ok_iff {seen : Std.HashMap String String} :
    checkScopeAfter language scope reserved seen names = .ok () ↔
      (∀ n ∈ names, n.mangled ∉ reserved ∧ n.mangled ∉ seen) ∧
        (names.map MangledName.mangled).Nodup := by
  induction names generalizing seen with
  | nil =>
    refine ⟨fun _ => ⟨?_, List.nodup_nil⟩, fun _ => rfl⟩
    intro n hn
    cases hn
  | cons n names ih =>
    rw [checkScopeAfter, List.map_cons, List.nodup_cons, List.forall_mem_cons]
    by_cases hreserved : n.mangled ∈ reserved
    · rw [if_pos hreserved]
      exact ⟨(fun h => nomatch h), fun h => absurd hreserved h.1.1.1⟩
    rw [if_neg hreserved]
    cases hseen : seen[n.mangled]? with
    | some first =>
      have hmem : n.mangled ∈ seen :=
        Std.HashMap.mem_iff_isSome_getElem?.2 (by rw [hseen]; rfl)
      exact ⟨(fun h => nomatch h), fun h => absurd hmem h.1.1.2⟩
    | none =>
      have hfree : n.mangled ∉ seen := by
        rw [Std.HashMap.mem_iff_isSome_getElem?, hseen]
        exact Bool.false_ne_true
      -- The names behind `n` must avoid what was seen and `n` itself.
      have hinsert :
          (∀ m ∈ names, m.mangled ∉ reserved ∧ m.mangled ∉ seen.insert n.mangled n.name) ↔
          (∀ m ∈ names, m.mangled ∉ reserved ∧ m.mangled ∉ seen) ∧
            n.mangled ∉ names.map MangledName.mangled := by
        simp only [Std.HashMap.mem_insert, beq_iff_eq, not_or, List.mem_map, not_exists, not_and]
        refine ⟨fun h => ⟨fun m hm => ⟨(h m hm).1, (h m hm).2.2⟩, ?_⟩, ?_⟩
        · exact fun m hm heq => (h m hm).2.1 heq.symm
        · exact fun h m hm => ⟨(h.1 m hm).1, fun heq => h.2 m hm heq.symm, (h.1 m hm).2⟩
      show checkScopeAfter language scope reserved (seen.insert n.mangled n.name) names = .ok () ↔ _
      rw [ih, hinsert, and_assoc, and_assoc]
      exact ⟨fun h => ⟨⟨hreserved, hfree⟩, h⟩, fun h => h.2⟩

/-- A scope is accepted if its identifiers are distinct and none of them is reserved. -/
theorem checkScope_eq_ok_iff :
    checkScope language scope reserved names = .ok () ↔
      (∀ n ∈ names, n.mangled ∉ reserved) ∧ (names.map MangledName.mangled).Nodup := by
  unfold checkScope
  rw [checkScopeAfter_eq_ok_iff]
  simp only [Std.HashMap.not_mem_empty, not_false_eq_true, and_true]

def TargetError.isOfNames : TargetError → Bool
  | nameCollision _ _ _ _ _ | reservedName _ _ _ _ => true
  | _ => false

theorem isOfNames_of_checkScopeAfter {seen : Std.HashMap String String} {e : TargetError}
    (h : checkScopeAfter language scope reserved seen names = .error e) : e.isOfNames = true := by
  induction names generalizing seen with
  | nil => cases h
  | cons n names ih =>
    rw [checkScopeAfter] at h
    split at h
    · cases h
      rfl
    · split at h
      · cases h
        rfl
      · exact ih h

theorem isOfNames_of_checkScope {e : TargetError}
    (h : checkScope language scope reserved names = .error e) : e.isOfNames = true :=
  isOfNames_of_checkScopeAfter h

end WireCodec
