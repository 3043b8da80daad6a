import WireCodec.Proofs.Lexemes

/-!
# Patterns

A pattern matches a text in several ways, and says which of them it prefers: of two alternatives
the first, and of a repetition another turn.  What it takes at a place is the way that it prefers
there, even if another way would take more.

* `Pattern.fronts p front back`   the pieces at the front of `back` that `p` matches behind `front`,
                                  the preferred one first;
* `Pattern.first?`                the piece that is taken;
* `Pattern.fits`                  the pattern matches the whole of a text;
* `Pattern.first?_seq_run`        a run of characters does not give way to what follows it, if that
                                  cannot start inside the run;
* `Matched p front back pieces`   `p` takes the pieces one after the other, up to the end.
-/

namespace WireCodec.Source

/-- Patterns of texts, with alternatives in order of preference. -/
inductive Pattern
  | one (accepts : Char → Bool)
  | boundary
  | seq (first second : Pattern)
  | either (first second : Pattern)
  | optional (body : Pattern)
  | many (body : Pattern)

namespace Pattern

def plus (body : Pattern) : Pattern :=
  body.seq (many body)

/-- The pieces that turns of `body` match, those with more turns first.  A turn that takes nothing
is not made. -/
def turns (body : List Char → List Char → List (List Char)) (front back : List Char) :
    List (List Char) :=
  ((body front back).flatMap fun x =>
    if h : x = [] ∨ back = [] then []
    else (turns body (front ++ x) (back.drop x.length)).map (x ++ ·)) ++ [[]]
termination_by back.length
decreasing_by
  obtain ⟨hx, hback⟩ := not_or.1 h
  have hlength := List.length_pos_iff.2 hx
  have hpos := List.length_pos_iff.2 hback
  rw [List.length_drop]
  omega

/-- The pieces at the front of `back` that a pattern matches behind `front`, in order of
preference.  At a word boundary there is a word character on one side only. -/
def fronts : Pattern → (front back : List Char) → List (List Char)
  | one accepts, _, back =>
    match back with
    | [] => []
    | c :: _ => if accepts c then [[c]] else []
  | boundary, front, back =>
    if front.getLast?.any Text.isWordChar = back.head?.any Text.isWordChar then [] else [[]]
  | seq first second, front, back =>
    (first.fronts front back).flatMap fun x =>
      (second.fronts (front ++ x) (back.drop x.length)).map (x ++ ·)
  | either first second, front, back => first.fronts front back ++ second.fronts front back
  | optional body, front, back => body.fronts front back ++ [[]]
  | many body, front, back => turns body.fronts front back

def first? (p : Pattern) (front back : List Char) : Option (List Char) :=
  (p.fronts front back).head?

def fits (p : Pattern) (text : List Char) : Bool :=
  (p.fronts [] text).contains text

/-! ## What is taken -/

section
variable {p q : Pattern} {accepts : Char → Bool} {front back cs x : List Char} {c : Char}

theorem fronts_one_nil : (one accepts).fronts front [] = [] :=
  rfl

theorem fronts_one_cons :
    (one accepts).fronts front (c :: cs) = if accepts c then [[c]] else [] :=
  rfl

theorem fronts_seq : (p.seq q).fronts front back =
    (p.fronts front back).flatMap fun x =>
      (q.fronts (front ++ x) (back.drop x.length)).map (x ++ ·) :=
  rfl

theorem fronts_optional : p.optional.fronts front back = p.fronts front back ++ [[]] :=
  rfl

theorem fronts_many : p.many.fronts front back =
    ((p.fronts front back).flatMap fun x =>
      if x = [] ∨ back = [] then []
      else (p.many.fronts (front ++ x) (back.drop x.length)).map (x ++ ·)) ++ [[]] := by
  show turns p.fronts front back = _
  rw [turns]
  rfl

theorem fronts_eq_nil_iff : p.fronts front back = [] ↔ p.first? front back = none :=
  List.head?_eq_none_iff.symm

theorem first?_either :
    (p.either q).first? front back = (p.first? front back).or (q.first? front back) :=
  List.head?_append

theorem first?_optional :
    p.optional.first? front back = some ((p.first? front back).getD []) := by
  unfold first?
  rw [fronts_optional, List.head?_append]
  cases (p.fronts front back).head? with
  | none => rfl
  | some x => rfl

theorem first?_one_cons :
    (one accepts).first? front (c :: cs) = if accepts c then some [c] else none := by
  unfold first?
  rw [fronts_one_cons]
  split <;> rfl

theorem fronts_boundary : boundary.fronts front back =
    if endsInWord false front = endsWord back then [[]] else [] := by
  have hfront : front.getLast?.any Text.isWordChar = endsInWord false front := by
    unfold endsInWord
    cases front.getLast? <;> rfl
  have hback : back.head?.any Text.isWordChar = !endsWord back := by
    cases back with
    | nil => rfl
    | cons c cs => exact (Bool.not_not _).symm
  show (if front.getLast?.any Text.isWordChar = back.head?.any Text.isWordChar then []
    else [[]]) = _
  rw [hfront, hback]
  cases endsInWord false front <;> cases endsWord back <;> rfl

theorem first?_boundary : boundary.first? front back =
    if endsInWord false front = endsWord back then some [] else none := by
  rw [first?, fronts_boundary]
  split <;> rfl

/-- Behind the piece that the first pattern prefers, the second one goes on. -/
theorem first?_seq_of_some {y : List Char} (hx : p.first? front back = some x)
    (hy : q.first? (front ++ x) (back.drop x.length) = some y) :
    (p.seq q).first? front back = some (x ++ y) := by
  obtain ⟨more, hp⟩ := List.head?_eq_some_iff.1 hx
  obtain ⟨more', hq⟩ := List.head?_eq_some_iff.1 hy
  unfold first?
  rw [fronts_seq, hp, List.flatMap_cons, hq]
  rfl

/-- A pattern of one character matches in one way at most. -/
theorem first?_seq_one : ((one accepts).seq q).first? front (c :: cs) =
    if accepts c then (q.first? (front ++ [c]) cs).map (c :: ·) else none := by
  unfold first?
  rw [fronts_seq, fronts_one_cons]
  split
  · rw [List.flatMap_singleton, List.head?_map]
    rfl
  · rfl

theorem first?_seq_one_nil : ((one accepts).seq q).first? front [] = none := rfl

theorem first?_seq_boundary : (boundary.seq q).first? front back =
    if endsInWord false front = endsWord back then q.first? front back else none := by
  unfold first?
  rw [fronts_seq, fronts_boundary]
  split
  · rw [List.flatMap_singleton, List.append_nil]
    show ((q.fronts front back).map fun y => y).head? = _
    rw [List.map_id']
  · rfl

theorem exists_first?_many (p : Pattern) (front back : List Char) :
    ∃ x, p.many.first? front back = some x := by
  unfold first?
  rw [fronts_many, List.head?_append]
  cases (List.flatMap _ (p.fronts front back)).head? with
  | none => exact ⟨[], rfl⟩
  | some x => exact ⟨x, rfl⟩

theorem first?_many_of_none (h : p.first? front back = none) :
    p.many.first? front back = some [] := by
  unfold first?
  rw [fronts_many, fronts_eq_nil_iff.2 h]
  rfl

/-- A repetition goes on behind the piece that its body prefers. -/
theorem first?_many_of_some (hx : p.first? front back = some x) (hne : x ≠ [])
    (hback : back ≠ []) : p.many.first? front back =
      (p.many.first? (front ++ x) (back.drop x.length)).map (x ++ ·) := by
  obtain ⟨y, hy⟩ := exists_first?_many p (front ++ x) (back.drop x.length)
  obtain ⟨more, hp⟩ := List.head?_eq_some_iff.1 hx
  obtain ⟨more', hq⟩ := List.head?_eq_some_iff.1 hy
  rw [hy]
  unfold first?
  rw [fronts_many, hp, List.flatMap_cons, if_neg (not_or.2 ⟨hne, hback⟩), hq]
  rfl

/-! ## Runs of characters -/

theorem drop_length_takeWhile (accepts : Char → Bool) (cs : List Char) :
    cs.drop (cs.takeWhile accepts).length = cs.dropWhile accepts := by
  have hdrop := List.prefix_iff_eq_append.1 (List.takeWhile_prefix (l := cs) accepts)
  exact List.append_cancel_left (hdrop.trans List.takeWhile_append_dropWhile.symm)

theorem fronts_many_one_cons : (one accepts).many.fronts front (c :: cs) =
    if accepts c then ((one accepts).many.fronts (front ++ [c]) cs).map (c :: ·) ++ [[]]
    else [[]] := by
  rw [fronts_many, fronts_one_cons]
  split
  · rw [List.flatMap_singleton, if_neg (by simp)]
    rfl
  · rfl

/-- A run of characters takes all of them and does not give way to what follows, if that cannot
start inside the run. -/
theorem first?_seq_run
    (hq : ∀ x c cs, (∀ d ∈ x, accepts d = true) → accepts c = true →
      q.first? (front ++ x) (c :: cs) = none) :
    ((one accepts).many.seq q).first? front back =
      (q.first? (front ++ back.takeWhile accepts) (back.dropWhile accepts)).map
        (back.takeWhile accepts ++ ·) := by
  induction back generalizing front with
  | nil =>
    have hmany : (one accepts).many.fronts front [] = [[]] := by
      rw [fronts_many, fronts_one_nil]
      rfl
    unfold first?
    rw [fronts_seq, hmany, List.flatMap_singleton, List.head?_map]
    rfl
  | cons c cs ih =>
    by_cases hc : accepts c = true
    · have hmore : ((one accepts).many.seq q).first? front (c :: cs) =
          (((one accepts).many.seq q).first? (front ++ [c]) cs).map (c :: ·) := by
        have hhere := hq [] c cs (by simp) hc
        rw [List.append_nil, ← fronts_eq_nil_iff] at hhere
        unfold first?
        rw [fronts_seq, fronts_many_one_cons, if_pos hc, List.flatMap_append,
          List.flatMap_singleton, List.flatMap_map, fronts_seq, ← List.head?_map, List.map_flatMap]
        simp only [List.append_nil, List.length_nil, List.drop_zero, hhere, List.map_nil]
        simp only [List.map_map, List.append_assoc]
        rfl
      rw [hmore, ih, List.takeWhile_cons_of_pos hc, List.dropWhile_cons_of_pos hc, Option.map_map]
      · rw [List.append_assoc]
        rfl
      · intro x d ds hx hd
        rw [List.append_assoc]
        exact hq (c :: x) d ds (List.forall_mem_cons.2 ⟨hc, hx⟩) hd
    · rw [List.takeWhile_cons_of_neg hc, List.dropWhile_cons_of_neg hc]
      unfold first?
      rw [fronts_seq, fronts_many_one_cons, if_neg hc, List.flatMap_singleton, List.head?_map]
      rfl

theorem first?_many_one :
    (one accepts).many.first? front back = some (back.takeWhile accepts) := by
  induction back generalizing front with
  | nil =>
    unfold first?
    rw [fronts_many, fronts_one_nil]
    rfl
  | cons c cs ih =>
    unfold first? at ih ⊢
    rw [fronts_many_one_cons]
    split
    · next hc =>
      rw [List.head?_append, List.head?_map, ih, List.takeWhile_cons_of_pos hc]
      rfl
    · next hc =>
      rw [List.takeWhile_cons_of_neg hc]
      rfl

theorem first?_plus_one : (one accepts).plus.first? front back =
    if back.takeWhile accepts = [] then none else some (back.takeWhile accepts) := by
  cases back with
  | nil => rfl
  | cons c cs =>
    rw [plus, first?_seq_one, first?_many_one]
    by_cases hc : accepts c = true
    · rw [if_pos hc, List.takeWhile_cons_of_pos hc, if_neg (List.cons_ne_nil _ _)]
      rfl
    · rw [if_neg hc, List.takeWhile_cons_of_neg hc, if_pos rfl]

/-! ## One after the other -/

theorem first?_seq_of_none (h : p.first? front back = none) :
    (p.seq q).first? front back = none := by
  rw [← fronts_eq_nil_iff] at h ⊢
  rw [fronts_seq, h]
  rfl

theorem first?_seq_assoc {r : Pattern} :
    ((p.seq q).seq r).first? front back = (p.seq (q.seq r)).first? front back := by
  have hfronts : ((p.seq q).seq r).fronts front back = (p.seq (q.seq r)).fronts front back := by
    simp only [fronts_seq, List.flatMap_assoc, List.flatMap_map, List.map_flatMap, List.map_map,
      List.length_append, List.drop_drop, List.append_assoc]
    rfl
  rw [first?, first?, hfronts]

end
end Pattern

/-- The pattern takes the pieces one after the other, each where the last one ended, up to the end
of the text. -/
inductive Matched (p : Pattern) : (front back : List Char) → List (List Char) → Prop
  | done {front : List Char} : Matched p front [] []
  | step {front back piece : List Char} {pieces : List (List Char)}
      (hfirst : p.first? front (piece ++ back) = some piece)
      (hmore : Matched p (front ++ piece) back pieces) :
      Matched p front (piece ++ back) (piece :: pieces)

end WireCodec.Source
