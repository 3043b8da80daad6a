import WireCodec.Proofs.Named
import WireCodec.Proofs.Walk
import WireCodec.Text.Identifier

/-!
# Coherent definitions

Definitions mention each other by name.  The walk in dependency order goes from position to
position instead, so that cycles of names and cycles of positions have to be matched.

* `Refers defs a b`           the definition named `a` mentions `b`;
* `Coherent declared`         what definitions must satisfy together: their names are distinct
                              identifiers other than those of the builtins, every mentioned name
                              is defined, and no type reaches itself;
* `exists_order_iff`          the walk succeeds exactly if no type reaches itself;
* `DefinedFirst known defs`   each definition comes behind those it mentions;
* `definedFirst_of_settled`   so it is in the order in which the walk leaves them.
-/

namespace WireCodec

/-! ## Coherent definitions -/

/-- One of the definitions is named `a` and mentions `b`. -/
def Refers (defs : List TypeDef) (a b : String) : Prop :=
  ∃ d ∈ defs, d.name = a ∧ b ∈ d.references

/-- What the declared definitions of a schema satisfy together. -/
structure Coherent (declared : List TypeDef) : Prop where
  declarable : ∀ d ∈ declared, d.kind ≠ .builtin
  unreserved : ∀ d ∈ declared, ∀ b : Builtin, d.name ≠ b.name
  identifiers : ∀ d ∈ declared, Text.isIdentifier d.name = true
  distinct : (declared.map TypeDef.name).Nodup
  resolved : ∀ d ∈ declared, ∀ name ∈ d.references,
    (∃ b : Builtin, b.name = name) ∨ ∃ e ∈ declared, e.name = name
  acyclic : ∀ d ∈ declared, ¬ Relation.TransGen (Refers declared) d.name d.name

theorem Refers.perm {defs defs' : List TypeDef} (h : defs'.Perm defs) :
    Refers defs' = Refers defs := by
  funext a b
  unfold Refers
  rw [eq_iff_iff]
  exact exists_congr fun d => and_congr_left' h.mem_iff

theorem Coherent.perm {declared declared' : List TypeDef} (h : declared'.Perm declared)
    (hcoherent : Coherent declared) : Coherent declared' where
  declarable d hd := hcoherent.declarable d (h.mem_iff.1 hd)
  unreserved d hd := hcoherent.unreserved d (h.mem_iff.1 hd)
  identifiers d hd := hcoherent.identifiers d (h.mem_iff.1 hd)
  distinct := (h.map TypeDef.name).nodup_iff.2 hcoherent.distinct
  resolved d hd name hname := by
    rcases hcoherent.resolved d (h.mem_iff.1 hd) name hname with hb | ⟨e, he, hname⟩
    · exact .inl hb
    · exact .inr ⟨e, h.mem_iff.2 he, hname⟩
  acyclic d hd := by
    rw [Refers.perm h]
    exact hcoherent.acyclic d (h.mem_iff.1 hd)

/-! ## Positions of definitions -/

theorem edge_referenceEdges_iff {defs : Array TypeDef} {position : String → Option Nat}
    {p q : Nat} : Edge (referenceEdges defs position) p q ↔
      ∃ d, defs[p]? = some d ∧ ∃ name ∈ d.references, position name = some q := by
  unfold Edge referenceEdges
  cases h : defs[p]? with
  | none =>
    refine ⟨fun hq => absurd hq List.not_mem_nil, ?_⟩
    rintro ⟨d, hd, -⟩
    cases hd
  | some d =>
    show q ∈ d.references.filterMap position ↔ _
    rw [List.mem_filterMap]
    refine ⟨fun hq => ⟨d, rfl, hq⟩, ?_⟩
    rintro ⟨d', hd', hq⟩
    cases hd'
    exact hq

def positionOf (defs : List TypeDef) (name : String) : Option Nat :=
  (defs.map TypeDef.name).findIdx? (· = name)

/-- The positions that the definition at a position mentions. -/
def definitionEdges (defs : List TypeDef) : Nat → List Nat :=
  referenceEdges defs.toArray (positionOf defs)

section
variable {defs : List TypeDef} {p q : Nat} {name : String} {d : TypeDef}

theorem exists_of_positionOf (h : positionOf defs name = some p) :
    ∃ d, defs[p]? = some d ∧ d.name = name := by
  have hname := getElem?_of_findIdx?_eq_some h
  rw [List.getElem?_map] at hname
  exact Option.map_eq_some_iff.1 hname

theorem positionOf_of_getElem? (hdistinct : (defs.map TypeDef.name).Nodup)
    (h : defs[p]? = some d) : positionOf defs d.name = some p := by
  refine findIdx?_eq_some_of_nodup hdistinct ?_
  rw [List.getElem?_map, h]
  rfl

theorem exists_positionOf (h : name ∈ defs.map TypeDef.name) :
    ∃ p, positionOf defs name = some p := by
  refine Option.isSome_iff_exists.1 (List.findIdx?_isSome.trans ?_)
  exact List.any_eq_true.2 ⟨name, h, decide_eq_true rfl⟩

theorem edge_definitionEdges_iff : Edge (definitionEdges defs) p q ↔
    ∃ d, defs[p]? = some d ∧ ∃ name ∈ d.references, positionOf defs name = some q := by
  unfold definitionEdges
  rw [edge_referenceEdges_iff, List.getElem?_toArray]

theorem lt_of_edge (h : Edge (definitionEdges defs) p q) : q < defs.length := by
  obtain ⟨d, -, name, -, hq⟩ := edge_definitionEdges_iff.1 h
  obtain ⟨e, he, -⟩ := exists_of_positionOf hq
  exact (List.getElem?_eq_some_iff.1 he).1

/-- A path between positions is a path between the names defined there. -/
theorem refers_of_transGen_edge (h : Relation.TransGen (Edge (definitionEdges defs)) p q) :
    ∃ d e, defs[p]? = some d ∧ defs[q]? = some e ∧
      Relation.TransGen (Refers defs) d.name e.name := by
  induction h with
  | single hedge =>
    obtain ⟨d, hd, name, hname, hq⟩ := edge_definitionEdges_iff.1 hedge
    obtain ⟨e, he, rfl⟩ := exists_of_positionOf hq
    exact ⟨d, e, hd, he, .single ⟨d, List.mem_of_getElem? hd, rfl, hname⟩⟩
  | tail _ hedge ih =>
    obtain ⟨d, m, hd, hm, hpath⟩ := ih
    obtain ⟨m', hm', name, hname, hq⟩ := edge_definitionEdges_iff.1 hedge
    rw [hm] at hm'
    cases hm'
    obtain ⟨e, he, rfl⟩ := exists_of_positionOf hq
    exact ⟨d, e, hd, he, hpath.tail ⟨m, List.mem_of_getElem? hm, rfl, hname⟩⟩

/-- Where all mentioned names are defined, a path between names is a path between positions. -/
theorem edge_of_transGen_refers {a b : String} (hdistinct : (defs.map TypeDef.name).Nodup)
    (hresolved : ∀ d ∈ defs, ∀ name ∈ d.references, name ∈ defs.map TypeDef.name)
    (h : Relation.TransGen (Refers defs) a b) :
    ∃ p q, positionOf defs a = some p ∧ positionOf defs b = some q ∧
      Relation.TransGen (Edge (definitionEdges defs)) p q := by
  have hstep : ∀ a b, Refers defs a b →
      ∃ p q, positionOf defs a = some p ∧ positionOf defs b = some q ∧
        Edge (definitionEdges defs) p q := by
    rintro a b ⟨d, hd, rfl, hb⟩
    obtain ⟨p, hp⟩ := List.mem_iff_getElem?.1 hd
    obtain ⟨e, he, rfl⟩ := List.mem_map.1 (hresolved d hd b hb)
    obtain ⟨q, hq⟩ := List.mem_iff_getElem?.1 he
    have hposition := positionOf_of_getElem? hdistinct hq
    exact ⟨p, q, positionOf_of_getElem? hdistinct hp, hposition,
      edge_definitionEdges_iff.2 ⟨d, hp, e.name, hb, hposition⟩⟩
  induction h with
  | single hrefers =>
    obtain ⟨p, q, hp, hq, hedge⟩ := hstep _ _ hrefers
    exact ⟨p, q, hp, hq, .single hedge⟩
  | tail _ hrefers ih =>
    obtain ⟨p, m, hp, hm, hpath⟩ := ih
    obtain ⟨m', q, hm', hq, hedge⟩ := hstep _ _ hrefers
    rw [hm] at hm'
    cases hm'
    exact ⟨p, q, hp, hq, hpath.tail hedge⟩

/-- The walk finds an order exactly if no type reaches itself. -/
theorem exists_order_iff (hdistinct : (defs.map TypeDef.name).Nodup)
    (hresolved : ∀ d ∈ defs, ∀ name ∈ d.references, name ∈ defs.map TypeDef.name) :
    (∃ order, dependencyOrder defs.length (definitionEdges defs) = .ok order) ↔
      ∀ name, ¬ Relation.TransGen (Refers defs) name name := by
  rw [exists_dependencyOrder_iff fun p q => lt_of_edge]
  refine ⟨?_, ?_⟩
  · intro hacyclic name hcycle
    obtain ⟨p, q, hp, hq, hpath⟩ := edge_of_transGen_refers hdistinct hresolved hcycle
    rw [hp] at hq
    cases hq
    exact hacyclic p hpath
  · intro hacyclic p hcycle
    obtain ⟨d, e, hd, he, hpath⟩ := refers_of_transGen_edge hcycle
    rw [hd] at he
    cases he
    exact hacyclic d.name hpath

end

theorem resolve_eq_ok_iff {defs : Array TypeDef} {position : String → Option Nat}
    {order : List Nat} :
    resolve defs position = .ok order ↔
      dependencyOrder defs.size (referenceEdges defs position) = .ok order := by
  unfold resolve
  split
  · next found hfound =>
    rw [hfound]
    exact ⟨fun h => congrArg Except.ok (Except.ok.inj h),
      fun h => congrArg Except.ok (Except.ok.inj h)⟩
  · next cycle hcycle =>
    rw [hcycle]
    exact ⟨(fun h => nomatch h), (fun h => nomatch h)⟩

/-! ## Definitions behind those they mention -/

/-- Each definition mentions only names in `known` and names of definitions in front of it. -/
def DefinedFirst (known : List String) : List TypeDef → Prop
  | [] => True
  | d :: defs => (∀ name ∈ d.references, name ∈ known) ∧ DefinedFirst (d.name :: known) defs

theorem Settled.of_append {edges : Nat → List Nat} {front back : List Nat}
    (h : Settled edges (front ++ back)) : Settled edges back := by
  induction front with
  | nil => exact h
  | cons p front ih => exact ih h.2.2

/-- Definitions at settled positions are defined first.  `done` holds the positions in front, whose
names are known. -/
theorem definedFirst_of_settled {defs : List TypeDef} {order done : List Nat}
    {known : List String}
    (hresolved : ∀ d ∈ defs, ∀ name ∈ d.references, name ∈ defs.map TypeDef.name)
    (hsettled : Settled (definitionEdges defs) (order.reverse ++ done))
    (hdone : ∀ q ∈ done, ∀ d, defs[q]? = some d → d.name ∈ known) :
    DefinedFirst known (order.filterMap (defs.toArray[·]?)) := by
  induction order generalizing done known with
  | nil => exact trivial
  | cons p order ih =>
    rw [List.reverse_cons, List.append_assoc, List.singleton_append] at hsettled
    rw [List.filterMap_cons, List.getElem?_toArray]
    cases hd : defs[p]? with
    | none =>
      refine ih hsettled ?_
      intro q hq e he
      rcases List.mem_cons.1 hq with rfl | hq
      · rw [hd] at he
        cases he
      · exact hdone q hq e he
    | some d =>
      obtain ⟨-, hedges, -⟩ := hsettled.of_append
      refine ⟨?_, ih hsettled ?_⟩
      · intro name hname
        obtain ⟨q, hq⟩ := exists_positionOf (hresolved d (List.mem_of_getElem? hd) name hname)
        obtain ⟨e, he, rfl⟩ := exists_of_positionOf hq
        have hedge : Edge (definitionEdges defs) p q :=
          edge_definitionEdges_iff.2 ⟨d, hd, e.name, hname, hq⟩
        exact hdone q (hedges q hedge) e he
      · intro q hq e he
        rcases List.mem_cons.1 hq with rfl | hq
        · rw [hd] at he
          cases he
          exact List.mem_cons_self
        · exact List.mem_cons_of_mem _ (hdone q hq e he)

theorem filterMap_getElem?_range (defs : List TypeDef) :
    (List.range defs.length).filterMap (defs.toArray[·]?) = defs := by
  simp only [List.getElem?_toArray]
  induction defs with
  | nil => rfl
  | cons d defs ih =>
    rw [List.length_cons, List.range_succ_eq_map, List.filterMap_cons, List.getElem?_cons_zero,
      List.filterMap_map]
    exact congrArg (d :: ·) ih

end WireCodec
