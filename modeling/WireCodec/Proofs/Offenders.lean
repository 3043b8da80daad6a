import Mathlib.Order.Bounds.Basic
import WireCodec.Proofs.Scopes

/-!
# The first offender of a scope

The names of a scope are gone through in order.  The first whose identifier is reserved, or that of
a name before it, is the one that is reported.

* `Records seen before`       a map holds the identifiers of these names, each with its first name;
* `FaultBehind before n e`    what is reported of the name `n` behind others;
* `exists_faultBehind`        a fault is that of a name behind an accepted part of the scope;
* `Offends reserved names i`  the identifier at `i` is reserved or stands at an earlier place too;
* `checkScope_reports_first`  what is reported is the offender at the least place.
-/

namespace WireCodec

variable {language scope : String} {reserved : List String} {names before : List MangledName}
  {seen : Std.HashMap String String} {e : TargetError}

/-! ## What the map of identifiers holds -/

/-- Under each identifier the map holds the first of the names that are written so. -/
def Records (seen : Std.HashMap String String) (before : List MangledName) : Prop :=
  ∀ identifier, seen[identifier]? =
    (before.find? fun m => m.mangled = identifier).map MangledName.name

theorem records_empty : Records ∅ [] :=
  fun _ => Std.HashMap.getElem?_empty

theorem Records.insert (h : Records seen before) {n : MangledName}
    (hfree : seen[n.mangled]? = none) :
    Records (seen.insert n.mangled n.name) (before ++ [n]) := by
  intro identifier
  rw [Std.HashMap.getElem?_insert, List.find?_append, Option.map_or, ← h identifier]
  by_cases hsame : n.mangled = identifier
  · subst hsame
    simp [hfree]
  · simp [hsame]

theorem Records.exists_of_getElem? (h : Records seen before) {identifier first : String}
    (hseen : seen[identifier]? = some first) :
    ∃ m ∈ before, m.mangled = identifier ∧ m.name = first := by
  rw [h identifier] at hseen
  obtain ⟨m, hfind, hname⟩ := Option.map_eq_some_iff.1 hseen
  have hsame := List.find?_some hfind
  exact ⟨m, List.mem_of_find?_eq_some hfind, of_decide_eq_true hsame, hname⟩

/-! ## Faults behind an accepted part -/

/-- What is reported of a name: that its identifier is reserved, or else the name before it that is
written in the same way. -/
inductive FaultBehind (language scope : String) (reserved : List String)
    (before : List MangledName) (n : MangledName) : TargetError → Prop
  | reserved (h : n.mangled ∈ reserved) :
      FaultBehind language scope reserved before n (.reservedName language scope n.name n.mangled)
  | taken (h : n.mangled ∉ reserved) {m : MangledName} (hm : m ∈ before)
      (hsame : m.mangled = n.mangled) :
      FaultBehind language scope reserved before n
        (.nameCollision language scope m.name n.name n.mangled)

/-- The names in front of the one reported were accepted. -/
theorem exists_faultBehind_after (hrecords : Records seen before)
    (h : checkScopeAfter language scope reserved seen names = .error e) :
    ∃ passed n rest, names = passed ++ n :: rest ∧
      checkScopeAfter language scope reserved seen passed = .ok () ∧
      FaultBehind language scope reserved (before ++ passed) n e := by
  induction names generalizing seen before with
  | nil => cases h
  | cons n names ih =>
    rw [checkScopeAfter] at h
    by_cases hreserved : n.mangled ∈ reserved
    · rw [if_pos hreserved] at h
      cases h
      exact ⟨[], n, names, rfl, rfl, .reserved hreserved⟩
    rw [if_neg hreserved] at h
    cases hseen : seen[n.mangled]? with
    | some first =>
      rw [hseen] at h
      cases h
      obtain ⟨m, hm, hsame, rfl⟩ := hrecords.exists_of_getElem? hseen
      exact ⟨[], n, names, rfl, rfl, .taken hreserved (List.mem_append_left _ hm) hsame⟩
    | none =>
      -- The name is taken down, so that those behind it are checked against it as well.
      rw [hseen] at h
      obtain ⟨passed, m, rest, rfl, hpassed, hfault⟩ := ih (hrecords.insert hseen) h
      refine ⟨n :: passed, m, rest, rfl, ?_, ?_⟩
      · rw [checkScopeAfter, if_neg hreserved, hseen]
        exact hpassed
      · rwa [List.append_assoc] at hfault

/-- A scope that is refused begins with names that would be accepted on their own. -/
theorem exists_faultBehind (h : checkScope language scope reserved names = .error e) :
    ∃ passed n rest, names = passed ++ n :: rest ∧
      checkScope language scope reserved passed = .ok () ∧
      FaultBehind language scope reserved passed n e :=
  exists_faultBehind_after records_empty h

/-! ## The least offender -/

/-- The identifier at `i` is reserved, or a name before it is written in the same way. -/
def Offends (reserved : List String) (names : List MangledName) (i : Fin names.length) : Prop :=
  names[i].mangled ∈ reserved ∨ ∃ j < i, names[j].mangled = names[i].mangled

section
variable {passed rest : List MangledName} {n : MangledName}

theorem getElem_passed {j : Fin (passed ++ rest).length} (hj : j.val < passed.length) :
    (passed ++ rest)[j] = passed[j.val] :=
  List.getElem_append_left hj

theorem getElem_behind (hi : passed.length < (passed ++ n :: rest).length) :
    (passed ++ n :: rest)[(⟨passed.length, hi⟩ : Fin _)] = n := by
  simp

variable (h : checkScope language scope reserved passed = .ok ())
include h

theorem eq_of_mangled_eq {j k : Nat} (hj : j < passed.length) (hk : k < passed.length)
    (hsame : passed[j].mangled = passed[k].mangled) : j = k := by
  obtain ⟨-, hdistinct⟩ := checkScope_eq_ok_iff.1 h
  rw [← List.length_map MangledName.mangled] at hj hk
  have hsame : (passed.map MangledName.mangled)[j] = (passed.map MangledName.mangled)[k] := by
    rwa [List.getElem_map, List.getElem_map]
  exact hdistinct.getElem_inj_iff.1 hsame

theorem not_offends_of_lt {i : Fin (passed ++ rest).length} (hi : i.val < passed.length) :
    ¬ Offends reserved (passed ++ rest) i := by
  rintro (hreserved | ⟨j, hlt, hsame⟩)
  · rw [getElem_passed hi] at hreserved
    exact (checkScope_eq_ok_iff.1 h).1 _ (List.getElem_mem hi) hreserved
  · have hj : j.val < passed.length := Nat.lt_trans hlt hi
    rw [getElem_passed hi, getElem_passed hj] at hsame
    exact Nat.ne_of_lt hlt (eq_of_mangled_eq h hj hi hsame)

theorem isLeast_offends (hfault : FaultBehind language scope reserved passed n e)
    (hi : passed.length < (passed ++ n :: rest).length) :
    IsLeast {i | Offends reserved (passed ++ n :: rest) i} ⟨passed.length, hi⟩ := by
  constructor
  · rw [Set.mem_ofPred_eq, Offends, getElem_behind hi]
    cases hfault with
    | reserved hreserved => exact .inl hreserved
    | taken hfree hm hsame =>
      obtain ⟨j, hj, rfl⟩ := List.getElem_of_mem hm
      refine .inr ⟨⟨j, Nat.lt_trans hj hi⟩, hj, ?_⟩
      rw [getElem_passed hj, hsame]
  · intro i hoffends
    by_contra hlt
    exact not_offends_of_lt h (Fin.not_le.1 hlt) hoffends

end

/-- A scope is accepted if its identifiers are distinct and none of them is reserved.  If it is not
accepted then the offender at the least place is reported: as reserved, or else together with the
one name before it that is written in the same way. -/
theorem checkScope_reports_first (language scope : String) (reserved : List String)
    (names : List MangledName) :
    (checkScope language scope reserved names = .ok () ↔
      (names.map MangledName.mangled).Nodup ∧ ∀ n ∈ names, n.mangled ∉ reserved) ∧
    (checkScope language scope reserved names ≠ .ok () →
      ∃ i : Fin names.length, IsLeast {i | Offends reserved names i} i ∧
        (names[i].mangled ∈ reserved → checkScope language scope reserved names =
          .error (.reservedName language scope names[i].name names[i].mangled)) ∧
        (names[i].mangled ∉ reserved → ∃ j < i, names[j].mangled = names[i].mangled ∧
          (∀ k < i, names[k].mangled = names[i].mangled → k = j) ∧
          checkScope language scope reserved names =
            .error (.nameCollision language scope names[j].name names[i].name names[i].mangled))) := by
  refine ⟨checkScope_eq_ok_iff.trans And.comm, ?_⟩
  intro hrefused
  cases hcheck : checkScope language scope reserved names with
  | ok u => exact absurd hcheck hrefused
  | error e =>
    obtain ⟨passed, n, rest, rfl, hpassed, hfault⟩ := exists_faultBehind hcheck
    have hi : passed.length < (passed ++ n :: rest).length := by simp
    refine ⟨⟨passed.length, hi⟩, isLeast_offends hpassed hfault hi, ?_⟩
    rw [getElem_behind hi]
    cases hfault with
    | reserved hreserved => exact ⟨fun _ => rfl, fun hfree => absurd hreserved hfree⟩
    | taken hfree hm hsame =>
      refine ⟨fun hreserved => absurd hreserved hfree, fun _ => ?_⟩
      obtain ⟨j, hj, rfl⟩ := List.getElem_of_mem hm
      refine ⟨⟨j, Nat.lt_trans hj hi⟩, hj, ?_, ?_, ?_⟩
      · rw [getElem_passed hj, hsame]
      · intro k hk hagain
        rw [getElem_passed hk, ← hsame] at hagain
        exact Fin.ext (eq_of_mangled_eq hpassed hk hj hagain)
      · rw [getElem_passed hj]

end WireCodec
