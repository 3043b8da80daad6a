import Mathlib.Order.Basic
import WireCodec.Proofs.Precedence
import WireCodec.Proofs.Resolving

/-!
# The dependency order keeps the declaration order

The walk takes positions up as they come.  A position is left earlier than one in front of it only
if something at or in front of that one leads to it.

* `reaches_of_visit`             a visit leaves only positions that it reaches;
* `reaches_of_dependencyOrder`   a position out of turn is reached from one not behind;
* `dependencyOrder_eq_range`     an order that needs no change is kept;
* `resolve_stable`               the same for definitions, and a schema that is built again from
                                 its definitions in dependency order keeps that order.
-/

namespace WireCodec

open Relation

section
variable {edges : Nat → List Nat} {size depth : Nat} {path done done' : List Nat} {p : Nat}

/-! ## What a walk reaches -/

/-- A visit leaves only positions that are reached from its own. -/
theorem reaches_of_visit {P : Nat → Prop} (h : visit edges depth path done p = .ok done')
    (hreached : ∀ r, ReflTransGen (Edge edges) p r → P r) (hdone : ∀ r ∈ done, P r) :
    ∀ r ∈ done', P r := by
  induction depth, path, done, p using visit_ind generalizing done' with
  | left depth path done p hleft =>
    rw [visit_of_done hleft] at h
    cases h
    exact hdone
  | still depth path done p hleft hopen =>
    rw [visit_of_open hleft hopen] at h
    cases h
  | stuck path done p hleft hopen =>
    rw [visit, if_neg hleft, if_neg hopen] at h
    cases h
    exact hdone
  | new depth path done p hleft hopen ih =>
    rw [visit_of_new hleft hopen] at h
    obtain ⟨mid, hmid, hend⟩ := except_bind_eq_ok_iff.1 h
    cases hend
    have hmidP : ∀ r ∈ mid, P r := by
      apply foldlM_keeps (P := fun left => ∀ r ∈ left, P r) ?_ hdone hmid
      intro q hq before behind hbefore hvisit
      exact ih before q hvisit (fun r hr => hreached r (.head hq hr)) hbefore
    exact List.forall_mem_cons.2 ⟨hreached p .refl, hmidP⟩

theorem mem_of_visit (h : visit edges (depth + 1) [] done p = .ok done') : p ∈ done' := by
  by_cases hleft : p ∈ done
  · rw [visit_of_done hleft] at h
    cases h
    exact hleft
  · rw [visit_of_new hleft List.not_mem_nil] at h
    obtain ⟨mid, -, hend⟩ := except_bind_eq_ok_iff.1 h
    cases hend
    exact List.mem_cons_self

/-! ## Positions out of turn -/

/-- The order up to `i` is what was left when `i` was.  All of it is reached from `i` or from
positions in front of `i`. -/
theorem exists_split_of_dependencyOrder {order : List Nat} {i : Nat} (hi : i < size)
    (h : dependencyOrder size edges = .ok order) :
    ∃ front back, order = front ++ back ∧ i ∈ front ∧
      ∀ r ∈ front, ∃ k ≤ i, ReflTransGen (Edge edges) k r := by
  obtain ⟨done, hfold, hend⟩ := except_bind_eq_ok_iff.1 h
  cases hend
  obtain ⟨more, hmore⟩ := Nat.exists_eq_add_of_le (Nat.succ_le_of_lt hi)
  have hrange : List.range size = List.range (i + 1) ++ (List.range more).map (i + 1 + ·) := by
    rw [hmore, List.range_add]
  rw [hrange, List.foldlM_append] at hfold
  obtain ⟨left, hleft, hrest⟩ := except_bind_eq_ok_iff.1 hfold
  have hreached : ∀ r ∈ left, ∃ k ≤ i, ReflTransGen (Edge edges) k r := by
    apply foldlM_keeps (P := fun left => ∀ r ∈ left, ∃ k ≤ i, ReflTransGen (Edge edges) k r)
      ?_ ?_ hleft
    · intro q hq before behind hbefore hvisit
      have hq : q ≤ i := Nat.lt_succ_iff.1 (List.mem_range.1 hq)
      exact reaches_of_visit hvisit (fun r hr => ⟨q, hq, hr⟩) hbefore
    · intro r hr
      cases hr
  have hmem : i ∈ left := by
    rw [List.range_succ, List.foldlM_append] at hleft
    obtain ⟨before, -, hvisit⟩ := except_bind_eq_ok_iff.1 hleft
    rw [List.foldlM_cons] at hvisit
    obtain ⟨behind, hvisit, hend⟩ := except_bind_eq_ok_iff.1 hvisit
    cases hend
    have hdepth : size = (i + more) + 1 := by omega
    rw [hdepth] at hvisit
    exact mem_of_visit hvisit
  have hsuffix : left <:+ done :=
    isSuffix_of_foldlM (fun q before behind hvisit => visit_isSuffix hvisit) hrest
  obtain ⟨added, rfl⟩ := hsuffix
  refine ⟨left.reverse, added.reverse, List.reverse_append, List.mem_reverse.2 hmem, ?_⟩
  intro r hr
  exact hreached r (List.mem_reverse.1 hr)

/-- A position that comes before `i` in the order but is declared behind it is reached from `i` or
from a position in front of `i`. -/
theorem reaches_of_dependencyOrder {order : List Nat} {i j : Nat} (hij : i < j) (hj : j < size)
    (h : dependencyOrder size edges = .ok order) (hbefore : order.idxOf j < order.idxOf i) :
    ∃ k ≤ i, TransGen (Edge edges) k j := by
  obtain ⟨front, back, rfl, hi, hreached⟩ :=
    exists_split_of_dependencyOrder (Nat.lt_trans hij hj) h
  have hfront : j ∈ front := by
    by_contra hj
    rw [List.idxOf_append_of_mem hi, List.idxOf_append_of_notMem hj] at hbefore
    have hlt := List.idxOf_lt_length_iff.2 hi
    omega
  obtain ⟨k, hk, hpath⟩ := hreached j hfront
  rcases reflTransGen_iff_eq_or_transGen.1 hpath with heq | hpath
  · omega
  · exact ⟨k, hk, hpath⟩

/-! ## An order that needs no change -/

theorem lt_of_transGen (hback : ∀ p q, Edge edges p q → q < p) {k j : Nat}
    (h : TransGen (Edge edges) k j) : j < k := by
  induction h with
  | single hedge => exact hback _ _ hedge
  | tail _ hedge ih => exact Nat.lt_trans (hback _ _ hedge) ih

/-- If every edge leads to the front, there is an order, and it is that of the positions. -/
theorem dependencyOrder_eq_range (hedges : ∀ p q, Edge edges p q → q < size)
    (hback : ∀ p q, Edge edges p q → q < p) :
    dependencyOrder size edges = .ok (List.range size) := by
  have hacyclic : ∀ p, ¬ TransGen (Edge edges) p p :=
    fun p hcycle => Nat.lt_irrefl p (lt_of_transGen hback hcycle)
  obtain ⟨order, h⟩ := (exists_dependencyOrder_iff hedges).2 hacyclic
  obtain ⟨hperm, -⟩ := dependencyOrder_eq_ok hedges h
  have hnodup : order.Nodup := hperm.nodup_iff.2 List.nodup_range
  have hsorted : order.Pairwise (· < ·) := by
    rw [List.pairwise_iff_getElem]
    intro a b ha hb hab
    have hne : order[a] ≠ order[b] := fun heq => by
      have hindex := hnodup.getElem_inj_iff.1 heq
      omega
    by_contra hnot
    have hlt : order[b] < order[a] := by omega
    have hbelow : order[a] < size := List.mem_range.1 (hperm.mem_iff.1 (List.getElem_mem ha))
    have hbefore : order.idxOf order[a] < order.idxOf order[b] := by
      rw [hnodup.idxOf_getElem a ha, hnodup.idxOf_getElem b hb]
      exact hab
    obtain ⟨k, hk, hpath⟩ := reaches_of_dependencyOrder hlt hbelow h hbefore
    have hdown := lt_of_transGen hback hpath
    omega
  have hrange : order = List.range size := by
    apply hperm.eq_of_pairwise ?_ hsorted List.pairwise_lt_range
    intro p q _ _ hpq hqp
    omega
  rw [h, hrange]

end

/-! ## Schemas -/

/-- Where definitions come first, they are found in front of those that mention them. -/
theorem DefinedFirst.lt_of_edge {defs : List TypeDef} {p q : Nat} (h : DefinedFirst [] defs)
    (hedge : Edge (definitionEdges defs) p q) : q < p := by
  obtain ⟨d, hd, name, hname, hq⟩ := edge_definitionEdges_iff.1 hedge
  obtain ⟨hp, rfl⟩ := List.getElem?_eq_some_iff.1 hd
  have hsplit : defs = defs.take p ++ defs[p] :: defs.drop (p + 1) := by
    rw [List.getElem_cons_drop, List.take_append_drop]
  rw [hsplit] at h
  have hmem := (h.mem_of_split name hname).resolve_left List.not_mem_nil
  obtain ⟨q', hq'⟩ := exists_positionOf hmem
  have hfound : positionOf defs name = some q' := by
    unfold positionOf at hq' ⊢
    rw [hsplit, List.map_append, List.findIdx?_append, hq']
    rfl
  obtain ⟨e, he, -⟩ := exists_of_positionOf hq'
  have hlt := (List.getElem?_eq_some_iff.1 he).1
  rw [List.length_take] at hlt
  rw [hfound, Option.some.injEq] at hq
  omega

namespace Schema

variable {name version : String} {declared : List TypeDef} {s : Schema}

theorem ordered_eq_builtins_append (h : build name version declared = .ok s) :
    s.ordered = builtins ++ s.ordered.filter (· ∈ s.declared) ∧
      (s.ordered.filter (· ∈ s.declared)).Perm declared := by
  obtain ⟨-, -, hcoherent, -, rfl, -⟩ := build_eq_ok_iff.1 h
  obtain ⟨rest, hrest⟩ := builtins_isPrefix h
  have hlisted : (builtins ++ rest).Perm (builtins ++ s.declared) :=
    hrest ▸ (consistent_of_build h).listed
  have hperm : rest.Perm s.declared := (List.perm_append_left_iff builtins).1 hlisted
  have hbuiltins : builtins.filter (· ∈ s.declared) = [] := by
    rw [List.filter_eq_nil_iff]
    intro d hd hmem
    obtain ⟨b, rfl⟩ := mem_builtins.1 hd
    exact hcoherent.declarable _ (of_decide_eq_true hmem) rfl
  have hfilter : s.ordered.filter (· ∈ s.declared) = rest := by
    rw [← hrest, List.filter_append, hbuiltins, List.nil_append, List.filter_eq_self]
    intro d hd
    exact decide_eq_true (hperm.mem_iff.1 hd)
  rw [hfilter]
  exact ⟨hrest.symm, hperm⟩

/-- A schema that is built again from its definitions in dependency order keeps that order. -/
theorem ordered_build_ordered (h : build name version declared = .ok s) :
    ∃ s', build name version (s.ordered.filter (· ∈ s.declared)) = .ok s' ∧
      s'.ordered = s.ordered := by
  obtain ⟨hordered, hperm⟩ := ordered_eq_builtins_append h
  have hfirst := (consistent_of_build h).definedFirst
  generalize s.ordered.filter (· ∈ s.declared) = declared' at hordered hperm ⊢
  obtain ⟨hname, hversion, hcoherent⟩ := exists_build_iff.1 ⟨s, h⟩
  obtain ⟨s', hs'⟩ := exists_build_iff.2 ⟨hname, hversion, hcoherent.perm hperm⟩
  refine ⟨s', hs', ?_⟩
  obtain ⟨-, -, -, -, -, order, horder, hordered'⟩ := build_eq_ok_iff.1 hs'
  rw [hordered] at hfirst
  have hrange := dependencyOrder_eq_range (fun p q => lt_of_edge)
    (fun p q hedge => hfirst.lt_of_edge hedge)
  rw [horder, Except.ok.injEq] at hrange
  rw [hordered', hrange, filterMap_getElem?_range, hordered]

end Schema

/-- Declaration order is given up only where references ask for it: a definition that is listed
before an earlier one is reached from there or from further in front.  So nothing moves where all
references lead to the front, and a schema that is built again from what it lists keeps the
order. -/
theorem resolve_stable :
    (∀ defs position order, resolve defs position = .ok order →
      ∀ i j, i < j → j < defs.size → order.idxOf j < order.idxOf i →
        ∃ k ≤ i, TransGen (PointsTo defs position) k j) ∧
    (∀ defs position, (∀ p q, PointsTo defs position p q → q < p) →
      resolve defs position = .ok (List.range defs.size)) ∧
    ∀ name version declared s, Schema.build name version declared = .ok s →
      ∃ s', Schema.build name version (s.ordered.filter (· ∈ s.declared)) = .ok s' ∧
        s'.ordered = s.ordered := by
  refine ⟨?_, ?_, fun name version declared s hs => Schema.ordered_build_ordered hs⟩
  · intro defs position order horder i j hij hj hbefore
    rw [← edge_eq_pointsTo]
    exact reaches_of_dependencyOrder hij hj (resolve_eq_ok_iff.1 horder) hbefore
  · intro defs position hback
    rw [← edge_eq_pointsTo] at hback
    apply resolve_eq_ok_iff.2 (dependencyOrder_eq_range ?_ hback)
    intro p q hedge
    obtain ⟨d, hd, -⟩ := edge_referenceEdges_iff.1 hedge
    exact Nat.lt_trans (hback p q hedge) (Array.getElem?_eq_some_iff.1 hd).1

open Sample in
/-- The pair is declared in front of its side and listed behind it.  In the other order nothing
moves. -/
theorem resolve_stable_pairs :
    resolve Pairs.definitions.toArray (positionOf Pairs.definitions) = .ok [1, 0] ∧
      (∃ k ≤ 0, TransGen (PointsTo Pairs.definitions.toArray (positionOf Pairs.definitions)) k 1) ∧
      resolve Pairs.definitions.reverse.toArray (positionOf Pairs.definitions.reverse) =
        .ok [0, 1] ∧
      ∃ s s', Schema.build "pairs" "1.0.0" Pairs.definitions = .ok s ∧
        Schema.build "pairs" "1.0.0" (s.ordered.filter (· ∈ s.declared)) = .ok s' ∧
        s'.ordered = s.ordered := by
  have horder : resolve Pairs.definitions.toArray (positionOf Pairs.definitions) = .ok [1, 0] := by
    rfl
  obtain ⟨hstable, hkept, hbuild⟩ := resolve_stable
  obtain ⟨s, hs⟩ := Pairs.exists_build
  obtain ⟨s', hs', hordered⟩ := hbuild _ _ _ s hs
  have hback : ∀ p q, PointsTo Pairs.definitions.reverse.toArray
      (positionOf Pairs.definitions.reverse) p q → q < p := by
    rintro p q ⟨d, hd, name, hname, hq⟩
    match p with
    | 0 =>
      cases hd
      cases List.mem_singleton.1 hname
      cases hq
    | 1 =>
      cases hd
      cases List.mem_singleton.1 hname
      cases hq
      decide
    | p + 2 => cases hd
  exact ⟨horder, hstable _ _ _ horder 0 1 (by decide) (by decide) (by decide), hkept _ _ hback, s,
    s', hs, hs', hordered⟩

end WireCodec
