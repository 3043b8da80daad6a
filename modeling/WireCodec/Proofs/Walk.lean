import Mathlib.Data.List.Chain
import Mathlib.Data.List.Nodup
import Mathlib.Data.List.Perm.Subperm
import Mathlib.Logic.Relation
import WireCodec.Proofs.Writing
import WireCodec.Schema.DependencyOrder

/-!
# The depth-first walk

`visit` leaves a position after everything it has an edge to, or meets a position it has not left
yet.  In the first case there is no cycle among the positions left, in the second case the open
path holds one.

* `Settled edges done`       no position of `done` stands there twice, and each stands in front of
                             all it has an edge to;
* `Walked edges size path done`   what holds between two visits: `done` is settled and apart from
                             the open path;
* `visit_ind`                induction on visits;
* `visit_eq_ok`              a visit keeps it, and leaves its position;
* `visit_eq_error`           the positions that a failed visit reports are a cycle;
* `dependencyOrder_eq_ok`    the order lists every position once, each behind what it has an
                             edge to;
* `exists_dependencyOrder_iff`   there is an order exactly if no position reaches itself.
-/

namespace WireCodec

variable {edges : Nat → List Nat} {size depth : Nat} {path done done' : List Nat} {p : Nat}

def Edge (edges : Nat → List Nat) (p q : Nat) : Prop :=
  q ∈ edges p

/-- No position stands twice, and each stands in front of all it has an edge to. -/
def Settled (edges : Nat → List Nat) : List Nat → Prop
  | [] => True
  | q :: back => q ∉ back ∧ (∀ r ∈ edges q, r ∈ back) ∧ Settled edges back

/-- A walk along edges that ends where it starts and passes no other position twice. -/
def IsCycle (edges : Nat → List Nat) (cycle : List Nat) : Prop :=
  ∃ p mid, cycle = p :: (mid ++ [p]) ∧ (p :: mid).Nodup ∧ cycle.IsChain (Edge edges)

/-! ## Settled positions -/

theorem Settled.nodup (h : Settled edges done) : done.Nodup := by
  induction done with
  | nil => exact List.nodup_nil
  | cons q back ih => exact List.nodup_cons.2 ⟨h.1, ih h.2.2⟩

theorem Settled.mem_of_edge {q r : Nat} (h : Settled edges done) (hq : q ∈ done)
    (hr : Edge edges q r) : r ∈ done := by
  induction done with
  | nil => cases hq
  | cons first back ih =>
    obtain ⟨-, hfirst, hback⟩ := h
    rcases List.mem_cons.1 hq with rfl | hq
    · exact List.mem_cons_of_mem q (hfirst r hr)
    · exact List.mem_cons_of_mem first (ih hback hq)

theorem Settled.mem_of_transGen {q r : Nat} (h : Settled edges done) (hq : q ∈ done)
    (hr : Relation.TransGen (Edge edges) q r) : r ∈ done := by
  induction hr with
  | single hedge => exact h.mem_of_edge hq hedge
  | tail _ hedge hmid => exact h.mem_of_edge hmid hedge

/-- Whatever a position of a settled list reaches stands behind it, so it never reaches itself. -/
theorem Settled.not_transGen_self {q : Nat} (h : Settled edges done) (hq : q ∈ done) :
    ¬ Relation.TransGen (Edge edges) q q := by
  induction done with
  | nil => cases hq
  | cons first back ih =>
    obtain ⟨hnew, hfirst, hback⟩ := h
    rcases List.mem_cons.1 hq with rfl | hq
    · intro hcycle
      obtain ⟨r, hr, hrest⟩ := Relation.TransGen.head'_iff.1 hcycle
      have hr : r ∈ back := hfirst r hr
      rcases Relation.reflTransGen_iff_eq_or_transGen.1 hrest with heq | hrest
      · exact hnew (heq ▸ hr)
      · exact hnew (hback.mem_of_transGen hr hrest)
    · exact ih hback hq

/-! ## One visit -/

theorem visit_of_done (h : p ∈ done) : visit edges depth path done p = .ok done := by
  unfold visit
  rw [if_pos h]

theorem visit_of_open (hdone : p ∉ done) (h : p ∈ path) :
    visit edges depth path done p = .error (closeCycle path p) := by
  unfold visit
  rw [if_neg hdone, if_pos h]

theorem visit_of_new (hdone : p ∉ done) (hpath : p ∉ path) :
    visit edges (depth + 1) path done p =
      ((edges p).foldlM (visit edges depth (p :: path)) done >>= fun done => .ok (p :: done)) := by
  rw [visit, if_neg hdone, if_neg hpath]

/-- Induction on visits: the position was left before, is open, or is taken up with one less of
depth. -/
@[elab_as_elim]
theorem visit_ind {motive : Nat → List Nat → List Nat → Nat → Prop}
    (left : ∀ depth path done p, p ∈ done → motive depth path done p)
    (still : ∀ depth path done p, p ∉ done → p ∈ path → motive depth path done p)
    (stuck : ∀ path done p, p ∉ done → p ∉ path → motive 0 path done p)
    (new : ∀ depth path done p, p ∉ done → p ∉ path →
      (∀ done q, motive depth (p :: path) done q) → motive (depth + 1) path done p)
    (depth : Nat) (path done : List Nat) (p : Nat) : motive depth path done p := by
  induction depth generalizing path done p with
  | zero =>
    by_cases hdone : p ∈ done
    · exact left 0 path done p hdone
    · by_cases hpath : p ∈ path
      · exact still 0 path done p hdone hpath
      · exact stuck path done p hdone hpath
  | succ depth ih =>
    by_cases hdone : p ∈ done
    · exact left (depth + 1) path done p hdone
    · by_cases hpath : p ∈ path
      · exact still (depth + 1) path done p hdone hpath
      · exact new depth path done p hdone hpath fun done q => ih (p :: path) done q

/-- Positions on an open path are distinct, so a path on which `p` is missing is not full. -/
theorem length_lt_of_notMem (hnodup : path.Nodup) (hbelow : ∀ q ∈ path, q < size) (hp : p < size)
    (hnew : p ∉ path) : path.length < size := by
  have hsubset : p :: path ⊆ List.range size := by
    intro q hq
    rcases List.mem_cons.1 hq with rfl | hq
    · exact List.mem_range.2 hp
    · exact List.mem_range.2 (hbelow q hq)
  have hlength := (List.subperm_of_subset (List.nodup_cons.2 ⟨hnew, hnodup⟩) hsubset).length_le
  rw [List.length_cons, List.length_range] at hlength
  omega

/-- What holds between two visits: the positions left are settled, and the open ones are not among
them. -/
structure Walked (edges : Nat → List Nat) (size : Nat) (path done : List Nat) : Prop where
  settled : Settled edges done
  below : ∀ q ∈ done, q < size
  apart : ∀ q ∈ path, q ∉ done

theorem foldlM_keeps {step : List Nat → Nat → Except (List Nat) (List Nat)} {qs : List Nat}
    {P : List Nat → Prop}
    (hstep : ∀ q ∈ qs, ∀ before behind, P before → step before q = .ok behind → P behind)
    (hdone : P done) (h : qs.foldlM step done = .ok done') : P done' := by
  induction qs generalizing done with
  | nil =>
    cases h
    exact hdone
  | cons q qs ih =>
    rw [List.foldlM_cons] at h
    obtain ⟨mid, hmid, hrest⟩ := except_bind_eq_ok_iff.1 h
    have hmidP := hstep q List.mem_cons_self done mid hdone hmid
    exact ih (fun r hr => hstep r (List.mem_cons_of_mem q hr)) hmidP hrest

/-- Positions are visited one after the other; each visit keeps what was left before. -/
theorem foldlM_eq_ok {step : List Nat → Nat → Except (List Nat) (List Nat)} {qs : List Nat}
    {P : List Nat → Prop}
    (hstep : ∀ q ∈ qs, ∀ before behind, P before → step before q = .ok behind →
      P behind ∧ before ⊆ behind ∧ q ∈ behind)
    (hdone : P done) (h : qs.foldlM step done = .ok done') :
    P done' ∧ done ⊆ done' ∧ ∀ q ∈ qs, q ∈ done' := by
  induction qs generalizing done with
  | nil =>
    cases h
    refine ⟨hdone, List.Subset.refl _, ?_⟩
    intro q hq
    cases hq
  | cons q qs ih =>
    rw [List.foldlM_cons] at h
    obtain ⟨mid, hmid, hrest⟩ := except_bind_eq_ok_iff.1 h
    obtain ⟨hmidP, hsub, hq⟩ := hstep q List.mem_cons_self done mid hdone hmid
    obtain ⟨hP, hsub', hqs⟩ := ih (fun r hr => hstep r (List.mem_cons_of_mem q hr)) hmidP hrest
    refine ⟨hP, List.Subset.trans hsub hsub', ?_⟩
    intro r hr
    rcases List.mem_cons.1 hr with rfl | hr
    · exact hsub' hq
    · exact hqs r hr

/-- A visit that comes to an end leaves its position and keeps all that was left before. -/
theorem visit_eq_ok (hedges : ∀ p q, Edge edges p q → q < size) (hnodup : path.Nodup)
    (hbelow : ∀ q ∈ path, q < size) (hdepth : size ≤ depth + path.length) (hp : p < size)
    (hdone : Walked edges size path done) (h : visit edges depth path done p = .ok done') :
    Walked edges size path done' ∧ done ⊆ done' ∧ p ∈ done' := by
  induction depth, path, done, p using visit_ind generalizing done' with
  | left depth path done p hleft =>
    rw [visit_of_done hleft] at h
    cases h
    exact ⟨hdone, List.Subset.refl done, hleft⟩
  | still depth path done p hleft hopen =>
    rw [visit_of_open hleft hopen] at h
    cases h
  | stuck path done p hleft hopen =>
    -- The depth is never used up: the open path would hold every position.
    have hlength := length_lt_of_notMem hnodup hbelow hp hopen
    omega
  | new depth path done p hleft hopen ih =>
    rw [visit_of_new hleft hopen] at h
    obtain ⟨mid, hmid, hend⟩ := except_bind_eq_ok_iff.1 h
    cases hend
    have hnodup' : (p :: path).Nodup := List.nodup_cons.2 ⟨hopen, hnodup⟩
    have hbelow' : ∀ q ∈ p :: path, q < size := List.forall_mem_cons.2 ⟨hp, hbelow⟩
    have hdepth' : size ≤ depth + (p :: path).length := by
      rw [List.length_cons]
      omega
    have hstart : Walked edges size (p :: path) done :=
      ⟨hdone.settled, hdone.below, List.forall_mem_cons.2 ⟨hleft, hdone.apart⟩⟩
    obtain ⟨hwalked, hsub, hall⟩ := foldlM_eq_ok
      (fun q hq before behind hbefore hvisit =>
        ih before q hnodup' hbelow' hdepth' (hedges p q hq) hbefore hvisit) hstart hmid
    obtain ⟨hpmid, hpath⟩ := List.forall_mem_cons.1 hwalked.apart
    refine ⟨⟨⟨hpmid, hall, hwalked.settled⟩, ?_, ?_⟩, ?_, List.mem_cons_self⟩
    · exact List.forall_mem_cons.2 ⟨hp, hwalked.below⟩
    · intro q hq hmem
      rcases List.mem_cons.1 hmem with rfl | hmem
      · exact hopen hq
      · exact hpath q hq hmem
    · exact fun q hq => List.mem_cons_of_mem p (hsub hq)

/-! ## Cycles -/

theorem exists_of_foldlM_eq_error {step : List Nat → Nat → Except (List Nat) (List Nat)}
    {qs cycle : List Nat} (h : qs.foldlM step done = .error cycle) :
    ∃ q ∈ qs, ∃ before, step before q = .error cycle := by
  induction qs generalizing done with
  | nil => cases h
  | cons q qs ih =>
    rw [List.foldlM_cons] at h
    cases hstep : step done q with
    | error e =>
      rw [hstep] at h
      cases h
      exact ⟨q, List.mem_cons_self, done, hstep⟩
    | ok mid =>
      rw [hstep] at h
      obtain ⟨r, hr, before, hbefore⟩ := ih h
      exact ⟨r, List.mem_cons_of_mem q hr, before, hbefore⟩

/-- The part of an open path that a walk closes when it comes back to `p`. -/
theorem isCycle_closeCycle (hnodup : path.Nodup)
    (hlinked : (p :: path).IsChain (fun q r => Edge edges r q)) (hp : p ∈ path) :
    IsCycle edges (closeCycle path p) := by
  obtain ⟨front, back, rfl, hfront⟩ := List.eq_append_cons_of_mem hp
  have htake : (front ++ p :: back).takeWhile (· ≠ p) = front := by
    rw [List.takeWhile_append_of_pos, List.takeWhile_cons_of_neg (by simp), List.append_nil]
    intro q hq
    exact decide_eq_true fun heq => hfront (heq ▸ hq)
  unfold closeCycle
  rw [htake]
  refine ⟨p, front.reverse, rfl, ?_, ?_⟩
  · rw [List.nodup_cons, List.nodup_reverse, List.mem_reverse]
    exact ⟨hfront, hnodup.sublist (List.sublist_append_left front (p :: back))⟩
  · -- The path lists the innermost position first, so the cycle is a piece of it in reverse.
    have hreverse : p :: (front.reverse ++ [p]) = (p :: (front ++ [p])).reverse := by simp
    have hpiece : p :: (front ++ p :: back) = (p :: (front ++ [p])) ++ back := by simp
    rw [hpiece] at hlinked
    rw [hreverse, List.isChain_reverse]
    exact hlinked.left_of_append

/-- A visit fails with a cycle.  `path` leads to `p`, each position by an edge to the one before
it in the list. -/
theorem visit_eq_error {cycle : List Nat} (hnodup : path.Nodup)
    (hlinked : (p :: path).IsChain (fun q r => Edge edges r q))
    (h : visit edges depth path done p = .error cycle) : IsCycle edges cycle := by
  induction depth, path, done, p using visit_ind with
  | left depth path done p hleft =>
    rw [visit_of_done hleft] at h
    cases h
  | still depth path done p hleft hopen =>
    rw [visit_of_open hleft hopen] at h
    cases h
    exact isCycle_closeCycle hnodup hlinked hopen
  | stuck path done p hleft hopen =>
    rw [visit, if_neg hleft, if_neg hopen] at h
    cases h
  | new depth path done p hleft hopen ih =>
    rw [visit_of_new hleft hopen] at h
    cases hfold : (edges p).foldlM (visit edges depth (p :: path)) done with
    | ok mid =>
      rw [hfold] at h
      cases h
    | error e =>
      rw [hfold] at h
      cases h
      obtain ⟨q, hq, before, hvisit⟩ := exists_of_foldlM_eq_error hfold
      exact ih before q (List.nodup_cons.2 ⟨hopen, hnodup⟩)
        (List.isChain_cons_cons.2 ⟨hq, hlinked⟩) hvisit

theorem transGen_of_isChain {q r : Nat} {mid : List Nat}
    (h : (q :: (mid ++ [r])).IsChain (Edge edges)) : Relation.TransGen (Edge edges) q r := by
  induction mid generalizing q with
  | nil => exact .single (List.isChain_cons_cons.1 h).1
  | cons m mid ih =>
    obtain ⟨hedge, hrest⟩ := List.isChain_cons_cons.1 h
    exact .head hedge (ih hrest)

/-! ## The whole walk -/

/-- The order lists every position once, each behind all it has an edge to. -/
theorem dependencyOrder_eq_ok {order : List Nat} (hedges : ∀ p q, Edge edges p q → q < size)
    (h : dependencyOrder size edges = .ok order) :
    order.Perm (List.range size) ∧ Settled edges order.reverse := by
  obtain ⟨done, hfold, hend⟩ := except_bind_eq_ok_iff.1 h
  cases hend
  have hstart : Walked edges size [] [] := by
    refine ⟨trivial, ?_, ?_⟩
    · intro q hq
      cases hq
    · intro q hq
      cases hq
  obtain ⟨hwalked, -, hall⟩ := foldlM_eq_ok
    (fun q hq before behind hbefore hvisit =>
      visit_eq_ok hedges List.nodup_nil (fun r hr => absurd hr List.not_mem_nil)
        (Nat.le_add_right size _) (List.mem_range.1 hq) hbefore hvisit) hstart hfold
  rw [List.reverse_reverse]
  refine ⟨?_, hwalked.settled⟩
  have hnodup : done.reverse.Nodup := List.nodup_reverse.2 hwalked.settled.nodup
  refine (List.perm_ext_iff_of_nodup hnodup List.nodup_range).2 fun q => ?_
  rw [List.mem_reverse]
  exact ⟨fun hq => List.mem_range.2 (hwalked.below q hq), hall q⟩

theorem dependencyOrder_eq_error {cycle : List Nat}
    (h : dependencyOrder size edges = .error cycle) : IsCycle edges cycle := by
  unfold dependencyOrder at h
  cases hfold : (List.range size).foldlM (visit edges size []) [] with
  | ok done =>
    rw [hfold] at h
    cases h
  | error e =>
    rw [hfold] at h
    cases h
    obtain ⟨q, -, before, hvisit⟩ := exists_of_foldlM_eq_error hfold
    exact visit_eq_error List.nodup_nil (List.isChain_singleton q) hvisit

/-- There is an order exactly if no position reaches itself. -/
theorem exists_dependencyOrder_iff (hedges : ∀ p q, Edge edges p q → q < size) :
    (∃ order, dependencyOrder size edges = .ok order) ↔
      ∀ p, ¬ Relation.TransGen (Edge edges) p p := by
  refine ⟨?_, ?_⟩
  · rintro ⟨order, horder⟩ p hcycle
    obtain ⟨hperm, hsettled⟩ := dependencyOrder_eq_ok hedges horder
    obtain ⟨q, -, hq⟩ := Relation.TransGen.tail'_iff.1 hcycle
    have hp : p ∈ order := hperm.mem_iff.2 (List.mem_range.2 (hedges q p hq))
    exact hsettled.not_transGen_self (List.mem_reverse.2 hp) hcycle
  · intro hacyclic
    cases h : dependencyOrder size edges with
    | ok order => exact ⟨order, rfl⟩
    | error cycle =>
      obtain ⟨p, mid, rfl, -, hchain⟩ := dependencyOrder_eq_error h
      exact absurd (transGen_of_isChain hchain) (hacyclic p)

end WireCodec
