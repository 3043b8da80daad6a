import Std.Data.TreeSet.Lemmas

/-!
# Distinct names

`firstRepeated` finds the first name of a list that stands there a second time.

* `nodup_of_firstRepeated_eq_none`: where it finds none, all names are distinct.
-/

namespace WireCodec

/-- The first name that is among `seen` or stands in front of itself. -/
def firstRepeatedAfter (seen : Std.TreeSet String) : List String → Option String
  | [] => none
  | name :: names =>
    if name ∈ seen then some name else firstRepeatedAfter (seen.insert name) names

/-- The first name that occurs for the second time. -/
def firstRepeated (names : List String) : Option String :=
  firstRepeatedAfter ∅ names

theorem nodup_of_firstRepeatedAfter_eq_none {names : List String} {seen : Std.TreeSet String}
    (h : firstRepeatedAfter seen names = none) :
    names.Nodup ∧ ∀ name ∈ names, name ∉ seen := by
  induction names generalizing seen with
  | nil => simp
  | cons name names ih =>
    rw [firstRepeatedAfter] at h
    split at h
    · exact absurd h (by simp)
    · next hname =>
      obtain ⟨hnodup, hseen⟩ := ih h
      have hnew : name ∉ names := fun hmem => hseen name hmem Std.TreeSet.mem_insert_self
      refine ⟨List.nodup_cons.2 ⟨hnew, hnodup⟩, ?_⟩
      intro other hother
      rcases List.mem_cons.1 hother with rfl | hother
      · exact hname
      · exact fun hmem => hseen other hother (Std.TreeSet.mem_insert.2 (.inr hmem))

theorem nodup_of_firstRepeated_eq_none {names : List String} (h : firstRepeated names = none) :
    names.Nodup :=
  (nodup_of_firstRepeatedAfter_eq_none h).1

end WireCodec
