import Mathlib.Data.List.Forall2
import Mathlib.Logic.Function.Iterate
import WireCodec.Proofs.Coherent

/-!
# Resolving references

Any definitions can be ordered by their references, whatever index takes names to positions: names
may be missing from it, and of two definitions of one name it knows at most one.

* `PointsTo defs position p q`   the definition at `p` mentions a name that is found at `q`;
* `visitTurn`                    one visit, with `again` for the visits it makes;
* `iterate_visitTurn`            visits are never nested deeper than there are positions;
* `resolve_sorts`                the order lists what is referred to first, and there is none
                                 exactly if the definitions reported refer to each other in a
                                 cycle.
-/

namespace WireCodec

/-- The definition at `p` mentions a name that the index takes to `q`. -/
def PointsTo (defs : Array TypeDef) (position : String → Option Nat) (p q : Nat) : Prop :=
  ∃ d, defs[p]? = some d ∧ ∃ name ∈ d.references, position name = some q

/-! ## Visits without a bound -/

section
variable {edges : Nat → List Nat} {size depth : Nat} {path done : List Nat} {p : Nat}

/-- One visit of the walk, with `again` for the visits it makes. -/
def visitTurn (edges : Nat → List Nat)
    (again : List Nat → List Nat → Nat → Except (List Nat) (List Nat))
    (path done : List Nat) (p : Nat) : Except (List Nat) (List Nat) :=
  if p ∈ done then .ok done
  else if p ∈ path then .error (closeCycle path p)
  else do
    let done ← (edges p).foldlM (again (p :: path)) done
    .ok (p :: done)

theorem foldlM_congr_of_mem {step step' : List Nat → Nat → Except (List Nat) (List Nat)}
    {qs : List Nat} (h : ∀ q ∈ qs, ∀ done, step done q = step' done q) :
    qs.foldlM step done = qs.foldlM step' done := by
  induction qs generalizing done with
  | nil => rfl
  | cons q qs ih =>
    have hrest : qs.foldlM step = qs.foldlM step' :=
      funext fun done => ih fun r hr => h r (List.mem_cons_of_mem q hr)
    rw [List.foldlM_cons, List.foldlM_cons, h q List.mem_cons_self, hrest]

/-- A visit is made up of as many nested turns as its depth allows, and what lies beyond them is
never asked for. -/
theorem iterate_visitTurn (hedges : ∀ p q, Edge edges p q → q < size) (hnodup : path.Nodup)
    (hbelow : ∀ q ∈ path, q < size) (hdepth : size ≤ depth + path.length) (hp : p < size)
    (again : List Nat → List Nat → Nat → Except (List Nat) (List Nat)) :
    (visitTurn edges)^[depth + 1] again path done p = visit edges depth path done p := by
  induction depth, path, done, p using visit_ind with
  | left depth path done p hleft =>
    rw [Function.iterate_succ_apply', visitTurn, if_pos hleft, visit_of_done hleft]
  | still depth path done p hleft hopen =>
    rw [Function.iterate_succ_apply', visitTurn, if_neg hleft, if_pos hopen,
      visit_of_open hleft hopen]
  | stuck path done p hleft hopen =>
    have hlength := length_lt_of_notMem hnodup hbelow hp hopen
    omega
  | new depth path done p hleft hopen ih =>
    have hdepth' : size ≤ depth + (p :: path).length := by
      rw [List.length_cons]
      omega
    have hparts : ∀ q ∈ edges p, ∀ done,
        (visitTurn edges)^[depth + 1] again (p :: path) done q =
          visit edges depth (p :: path) done q := by
      intro q hq done
      exact ih done q (List.nodup_cons.2 ⟨hopen, hnodup⟩) (List.forall_mem_cons.2 ⟨hp, hbelow⟩)
        hdepth' (hedges p q hq)
    rw [Function.iterate_succ_apply', visitTurn, if_neg hleft, if_neg hopen,
      visit_of_new hleft hopen, foldlM_congr_of_mem hparts]

/-- The whole walk, without a bound on the depth of visits. -/
theorem dependencyOrder_eq_iterate (hedges : ∀ p q, Edge edges p q → q < size)
    (again : List Nat → List Nat → Nat → Except (List Nat) (List Nat)) {n : Nat} (hn : size < n) :
    dependencyOrder size edges =
      ((List.range size).foldlM ((visitTurn edges)^[n] again []) []).map List.reverse := by
  obtain ⟨more, rfl⟩ := Nat.exists_eq_add_of_lt hn
  have hturns : ∀ q ∈ List.range size, ∀ done,
      (visitTurn edges)^[size + more + 1] again [] done q = visit edges size [] done q := by
    intro q hq done
    have hsplit : size + more + 1 = (size + 1) + more := by omega
    rw [hsplit, Function.iterate_add_apply]
    exact iterate_visitTurn hedges List.nodup_nil (fun r hr => absurd hr List.not_mem_nil)
      (Nat.le_add_right size _) (List.mem_range.1 hq) _
  rw [foldlM_congr_of_mem hturns]
  unfold dependencyOrder
  cases (List.range size).foldlM (visit edges size []) [] with
  | error cycle => rfl
  | ok done => rfl

/-! ## Positions in front of others -/

theorem Settled.idxOf_lt {q : Nat} (h : Settled edges done) (hp : p ∈ done) (hq : Edge edges p q) :
    done.reverse.idxOf q < done.reverse.idxOf p := by
  induction done with
  | nil => cases hp
  | cons first back ih =>
    obtain ⟨hnew, hfirst, hback⟩ := h
    rw [List.reverse_cons]
    rcases List.mem_cons.1 hp with rfl | hp
    · have hq : q ∈ back.reverse := List.mem_reverse.2 (hfirst q hq)
      have hp : p ∉ back.reverse := fun hp => hnew (List.mem_reverse.1 hp)
      rw [List.idxOf_append_of_mem hq, List.idxOf_append_of_notMem hp]
      have hlt := List.idxOf_lt_length_iff.2 hq
      omega
    · have hq' : q ∈ back.reverse := List.mem_reverse.2 (hback.mem_of_edge hp hq)
      rw [List.idxOf_append_of_mem hq', List.idxOf_append_of_mem (List.mem_reverse.2 hp)]
      exact ih hback hp

end

/-! ## Definitions at positions -/

section
variable {defs : Array TypeDef} {position : String → Option Nat} {order : List Nat}

def NamedAt (defs : Array TypeDef) (p : Nat) (name : String) : Prop :=
  ∃ d, defs[p]? = some d ∧ d.name = name

def namesAt (defs : Array TypeDef) (ps : List Nat) : List String :=
  ps.filterMap fun p => defs[p]?.map TypeDef.name

theorem edge_eq_pointsTo : Edge (referenceEdges defs position) = PointsTo defs position := by
  funext p q
  exact propext edge_referenceEdges_iff

theorem resolve_eq_mapError :
    resolve defs position = (dependencyOrder defs.size (referenceEdges defs position)).mapError
      fun cycle => .cyclic (namesAt defs cycle) := by
  unfold resolve
  cases dependencyOrder defs.size (referenceEdges defs position) with
  | ok order => rfl
  | error cycle => rfl

theorem forall₂_namesAt {ps : List Nat} (h : ∀ p ∈ ps, ∃ d, defs[p]? = some d) :
    List.Forall₂ (NamedAt defs) ps (namesAt defs ps) := by
  induction ps with
  | nil => exact .nil
  | cons p ps ih =>
    obtain ⟨⟨d, hd⟩, hrest⟩ := List.forall_mem_cons.1 h
    have hnames : namesAt defs (p :: ps) = d.name :: namesAt defs ps := by
      simp [namesAt, hd]
    rw [hnames]
    exact .cons ⟨d, hd, rfl⟩ (ih hrest)

theorem exists_of_isChain {R : Nat → Nat → Prop} {ps : List Nat} {last : Nat}
    (h : (ps ++ [last]).IsChain R) : ∀ p ∈ ps, ∃ q, R p q := by
  induction ps with
  | nil =>
    intro p hp
    cases hp
  | cons first ps ih =>
    have hrest : ∀ p ∈ ps, ∃ q, R p q := ih h.of_cons
    refine List.forall_mem_cons.2 ⟨?_, hrest⟩
    cases ps with
    | nil => exact ⟨last, (List.isChain_cons_cons.1 h).1⟩
    | cons second ps => exact ⟨second, (List.isChain_cons_cons.1 h).1⟩

theorem lt_of_pointsTo (hposition : ∀ name q, position name = some q → q < defs.size) (p q : Nat)
    (h : Edge (referenceEdges defs position) p q) : q < defs.size := by
  obtain ⟨d, -, name, -, hq⟩ := edge_referenceEdges_iff.1 h
  exact hposition name q hq

theorem exists_cycle_of_resolve {e : SchemaError} (h : resolve defs position = .error e) :
    ∃ p mid names, e = .cyclic names ∧ (p :: mid).Nodup ∧
      (p :: (mid ++ [p])).IsChain (PointsTo defs position) ∧
      List.Forall₂ (NamedAt defs) (p :: (mid ++ [p])) names := by
  rw [resolve_eq_mapError] at h
  cases hwalk : dependencyOrder defs.size (referenceEdges defs position) with
  | ok order =>
    rw [hwalk] at h
    cases h
  | error cycle =>
    rw [hwalk] at h
    cases h
    obtain ⟨p, mid, rfl, hnodup, hchain⟩ := dependencyOrder_eq_error hwalk
    rw [edge_eq_pointsTo] at hchain
    have hpoints : ∀ q ∈ p :: mid, ∃ r, PointsTo defs position q r := exists_of_isChain hchain
    have hdefined : ∀ q ∈ p :: mid, ∃ d, defs[q]? = some d := by
      intro q hq
      obtain ⟨r, d, hd, -⟩ := hpoints q hq
      exact ⟨d, hd⟩
    refine ⟨p, mid, _, rfl, hnodup, hchain, forall₂_namesAt ?_⟩
    intro q hq
    rcases List.mem_append.1 (List.cons_append ▸ hq) with hq | hq
    · exact hdefined q hq
    · rw [List.mem_singleton] at hq
      exact hdefined q (hq ▸ List.mem_cons_self)

/-- References are resolved by a walk that ends.  It finds an order if and only if no definition
leads back to itself; then every position stands once in the order, behind all it points to.
Otherwise the names reported are those on a cycle. -/
theorem resolve_sorts (hposition : ∀ name q, position name = some q → q < defs.size) :
    (∀ again n, defs.size < n → resolve defs position =
      (((List.range defs.size).foldlM
        ((visitTurn (referenceEdges defs position))^[n] again []) []).map List.reverse).mapError
          fun cycle => .cyclic (namesAt defs cycle)) ∧
    ((∃ order, resolve defs position = .ok order) ↔
      ∀ p, ¬ Relation.TransGen (PointsTo defs position) p p) ∧
    (∀ order, resolve defs position = .ok order → order.Perm (List.range defs.size) ∧
      ∀ p q, PointsTo defs position p q → order.idxOf q < order.idxOf p) ∧
    ∀ e, resolve defs position = .error e →
      ∃ p mid names, e = .cyclic names ∧ (p :: mid).Nodup ∧
        (p :: (mid ++ [p])).IsChain (PointsTo defs position) ∧
        List.Forall₂ (NamedAt defs) (p :: (mid ++ [p])) names := by
  have hedges := lt_of_pointsTo hposition
  refine ⟨?_, ?_, ?_, fun e he => exists_cycle_of_resolve he⟩
  · intro again n hn
    rw [resolve_eq_mapError, dependencyOrder_eq_iterate hedges again hn]
  · have hiff := exists_dependencyOrder_iff hedges
    rw [edge_eq_pointsTo] at hiff
    simp only [resolve_eq_ok_iff]
    exact hiff
  · intro order horder
    obtain ⟨hperm, hsettled⟩ := dependencyOrder_eq_ok hedges (resolve_eq_ok_iff.1 horder)
    refine ⟨hperm, ?_⟩
    intro p q hpoints
    have hedge : Edge (referenceEdges defs position) p q := edge_referenceEdges_iff.2 hpoints
    obtain ⟨d, hd, -⟩ := hpoints
    have hp : p < defs.size := (Array.getElem?_eq_some_iff.1 hd).1
    have hmem : p ∈ order.reverse := List.mem_reverse.2 (hperm.mem_iff.2 (List.mem_range.2 hp))
    have hlt := hsettled.idxOf_lt hmem hedge
    rw [List.reverse_reverse] at hlt
    exact hlt

end

/-- Two arrays of each other, and an array of a type that is not defined. -/
def Sample.Ring.definitions : List TypeDef := [
  .fixedArray ⟨"lone", "missing", 1, Nat.one_pos⟩,
  .fixedArray ⟨"inner", "outer", 2, Nat.two_pos⟩,
  .fixedArray ⟨"outer", "inner", 2, Nat.two_pos⟩]

open Sample in
theorem resolve_sorts_ring :
    resolve Ring.definitions.toArray (positionOf Ring.definitions) =
        .error (.cyclic ["inner", "outer", "inner"]) ∧
      (∃ p, Relation.TransGen
        (PointsTo Ring.definitions.toArray (positionOf Ring.definitions)) p p) ∧
      ∃ order, resolve (Ring.definitions.take 2).toArray (positionOf (Ring.definitions.take 2)) =
        .ok order ∧ order.Perm (List.range 2) := by
  have hbelow : ∀ defs name q, positionOf defs name = some q → q < defs.toArray.size := by
    intro defs name q hq
    obtain ⟨d, hd, -⟩ := exists_of_positionOf hq
    exact (List.getElem?_eq_some_iff.1 hd).1
  have hring : resolve Ring.definitions.toArray (positionOf Ring.definitions) =
      .error (.cyclic ["inner", "outer", "inner"]) := by rfl
  obtain ⟨-, hacyclic, -, -⟩ := resolve_sorts (hbelow Ring.definitions)
  obtain ⟨-, -, hsorted, -⟩ := resolve_sorts (hbelow (Ring.definitions.take 2))
  refine ⟨hring, ?_, [0, 1], rfl, (hsorted [0, 1] rfl).1⟩
  by_contra hnone
  obtain ⟨order, horder⟩ := hacyclic.2 fun p hp => hnone ⟨p, hp⟩
  rw [hring] at horder
  cases horder

end WireCodec
