import WireCodec.Value.Pack

/-!
# Lists of named entries

Fields, variants and given values are lists of pairs whose names are distinct.

* `lookup_eq_some_of_mem`      with distinct names a look-up finds every entry;
* `findIdx?_eq_some_of_nodup`  and the position of a name is the place where it stands;
* `checkGiven_eq_ok_iff`       the given fields of a composite are accepted if they are distinct
                               and declared.
-/

namespace WireCodec

theorem mem_of_lookup_eq_some {α : Type} {entries : List (String × α)} {name : String} {a : α}
    (h : entries.lookup name = some a) : (name, a) ∈ entries := by
  obtain ⟨front, back, rfl, -⟩ := List.lookup_eq_some_iff.1 h
  exact List.mem_append_right front List.mem_cons_self

theorem lookup_eq_some_of_mem {α : Type} {entries : List (String × α)} {name : String} {a : α}
    (hdistinct : (entries.map Prod.fst).Nodup) (h : (name, a) ∈ entries) :
    entries.lookup name = some a := by
  induction entries with
  | nil => cases h
  | cons entry entries ih =>
    obtain ⟨hnew, hdistinct⟩ := List.nodup_cons.1 hdistinct
    rcases List.mem_cons.1 h with rfl | h
    · exact List.lookup_cons_self
    · have hne : (name == entry.1) = false :=
        beq_eq_false_iff_ne.2 fun hname => hnew (hname ▸ List.mem_map_of_mem h)
      rw [List.lookup_cons, hne]
      exact ih hdistinct h

theorem eq_of_mem_of_mem {α : Type} {entries : List (String × α)} {name : String} {a b : α}
    (hdistinct : (entries.map Prod.fst).Nodup) (ha : (name, a) ∈ entries)
    (hb : (name, b) ∈ entries) : a = b := by
  have hlookup := lookup_eq_some_of_mem hdistinct ha
  rw [lookup_eq_some_of_mem hdistinct hb] at hlookup
  exact (Option.some.inj hlookup).symm

theorem findIdx?_eq_some_of_nodup {names : List String} {name : String} {i : Nat}
    (hdistinct : names.Nodup) (h : names[i]? = some name) :
    names.findIdx? (· = name) = some i := by
  induction names generalizing i with
  | nil => cases h
  | cons first names ih =>
    obtain ⟨hnew, hdistinct⟩ := List.nodup_cons.1 hdistinct
    rw [List.findIdx?_cons]
    cases i with
    | zero =>
      cases h
      simp
    | succ i =>
      have hname : names[i]? = some name := h
      have hne : first ≠ name := fun heq => hnew (heq ▸ List.mem_of_getElem? hname)
      simp [hne, ih hdistinct hname]

theorem getElem?_of_findIdx?_eq_some {names : List String} {name : String} {i : Nat}
    (h : names.findIdx? (· = name) = some i) : names[i]? = some name := by
  obtain ⟨hi, hname, -⟩ := List.findIdx?_eq_some_iff_getElem.1 h
  rw [List.getElem?_eq_getElem hi]
  exact congrArg some (of_decide_eq_true hname)

/-- The given fields are accepted if each is declared and none is given twice. -/
theorem checkGiven_eq_ok_iff {typeName : String} {declared seen : List String}
    {given : List (String × Value)} :
    checkGiven typeName declared seen given = .ok () ↔
      (∀ name ∈ given.map Prod.fst, name ∈ declared ∧ name ∉ seen) ∧
        (given.map Prod.fst).Nodup := by
  induction given generalizing seen with
  | nil =>
    refine ⟨fun _ => ⟨?_, List.nodup_nil⟩, fun _ => rfl⟩
    intro name hname
    cases hname
  | cons field given ih =>
    obtain ⟨name, v⟩ := field
    rw [checkGiven, List.map_cons, List.nodup_cons]
    by_cases hdeclared : name ∈ declared
    · by_cases hseen : name ∈ seen
      · rw [if_neg (not_not_intro hdeclared), if_pos hseen]
        refine ⟨(fun h => nomatch h), ?_⟩
        intro hr
        obtain ⟨hall, -⟩ := hr
        exact absurd hseen (hall name List.mem_cons_self).2
      · rw [if_neg (not_not_intro hdeclared), if_neg hseen, ih]
        refine ⟨?_, ?_⟩
        · intro hr
          obtain ⟨hall, hdistinct⟩ := hr
          refine ⟨?_, ?_, hdistinct⟩
          · intro other hother
            rcases List.mem_cons.1 hother with rfl | hother
            · exact ⟨hdeclared, hseen⟩
            · exact ⟨(hall other hother).1, fun h => (hall other hother).2 (.tail _ h)⟩
          · exact fun h => (hall name h).2 List.mem_cons_self
        · intro hr
          obtain ⟨hall, hnew, hdistinct⟩ := hr
          refine ⟨?_, hdistinct⟩
          intro other hother
          have hother' := hall other (.tail _ hother)
          refine ⟨hother'.1, ?_⟩
          rw [List.mem_cons]
          rintro (rfl | h)
          · exact hnew hother
          · exact hother'.2 h
    · rw [if_pos hdeclared]
      refine ⟨(fun h => nomatch h), ?_⟩
      intro hr
      obtain ⟨hall, -⟩ := hr
      exact absurd (hall name List.mem_cons_self).1 hdeclared

end WireCodec
