import WireCodec.Proofs.Rendering

/-!
# Types in front of their users

The dependency order puts a type behind those it mentions.  The builtins of tags are not mentioned,
but the walk takes up the builtins first and they have nothing to wait for.

* `range_isPrefix_of_dependencyOrder`   positions without edges at the front stay at the front;
* `Schema.builtins_isPrefix`            so every schema lists the builtins first;
* `DefinedFirst.mem_of_split`           a mentioned type is listed before its user;
* `Schema.uses_before`                  and so is every type that the code of a definition is about.
-/

namespace WireCodec

/-! ## The walk leaves positions in turn -/

section
variable {edges : Nat → List Nat} {size depth : Nat} {path done done' : List Nat} {p : Nat}

theorem isSuffix_of_foldlM {step : List Nat → Nat → Except (List Nat) (List Nat)} {qs : List Nat}
    (hstep : ∀ q before behind, step before q = .ok behind → before <:+ behind)
    (h : qs.foldlM step done = .ok done') : done <:+ done' := by
  apply foldlM_keeps (P := fun left => done <:+ left) ?_ (List.suffix_refl done) h
  intro q _ before behind hbefore hq
  exact hbefore.trans (hstep q before behind hq)

theorem visit_isSuffix (h : visit edges depth path done p = .ok done') : done <:+ done' := by
  induction depth, path, done, p using visit_ind generalizing done' with
  | left depth path done p hleft =>
    rw [visit_of_done hleft] at h
    cases h
    exact List.suffix_refl done
  | still depth path done p hleft hopen =>
    rw [visit_of_open hleft hopen] at h
    cases h
  | stuck path done p hleft hopen =>
    rw [visit, if_neg hleft, if_neg hopen] at h
    cases h
    exact List.suffix_refl done
  | new depth path done p hleft hopen ih =>
    rw [visit_of_new hleft hopen] at h
    obtain ⟨mid, hmid, hend⟩ := except_bind_eq_ok_iff.1 h
    cases hend
    have hsuffix := isSuffix_of_foldlM (fun q before behind hvisit => ih before q hvisit) hmid
    exact hsuffix.trans (List.suffix_cons p mid)

/-- Positions without edges are left as they come. -/
theorem foldlM_visit_range {count : Nat} (hleaves : ∀ q < count, edges q = []) :
    (List.range count).foldlM (visit edges (depth + 1) []) [] = .ok (List.range count).reverse := by
  induction count with
  | zero => rfl
  | succ count ih =>
    have hnew : count ∉ (List.range count).reverse := by
      rw [List.mem_reverse, List.mem_range]
      exact Nat.lt_irrefl count
    rw [List.range_succ, List.foldlM_append, ih fun q hq => hleaves q (Nat.lt_succ_of_lt hq),
      List.reverse_append]
    show (visit edges (depth + 1) [] (List.range count).reverse count >>= pure) = _
    rw [visit_of_new hnew List.not_mem_nil, hleaves count (Nat.lt_succ_self count)]
    rfl

/-- Positions without edges that stand in front of all others stay there. -/
theorem range_isPrefix_of_dependencyOrder {count : Nat} {order : List Nat} (hcount : count ≤ size)
    (hleaves : ∀ q < count, edges q = []) (h : dependencyOrder size edges = .ok order) :
    List.range count <+: order := by
  obtain ⟨done, hfold, hend⟩ := except_bind_eq_ok_iff.1 h
  cases hend
  obtain ⟨more, rfl⟩ := Nat.exists_eq_add_of_le hcount
  cases hsize : count + more with
  | zero =>
    rw [(Nat.add_eq_zero_iff.1 hsize).1]
    exact List.nil_prefix
  | succ depth =>
    rw [List.range_add, List.foldlM_append, hsize] at hfold
    obtain ⟨leaves, hfront, hrest⟩ := except_bind_eq_ok_iff.1 hfold
    rw [foldlM_visit_range hleaves] at hfront
    cases hfront
    have hsuffix := isSuffix_of_foldlM (fun q before behind hvisit => visit_isSuffix hvisit) hrest
    rw [← List.reverse_reverse (List.range count), List.reverse_prefix]
    exact hsuffix

end

/-! ## Definitions in front of their users -/

theorem DefinedFirst.mem_of_split {known : List String} {before after : List TypeDef}
    {d : TypeDef} (h : DefinedFirst known (before ++ d :: after)) :
    ∀ n ∈ d.references, n ∈ known ∨ n ∈ before.map TypeDef.name := by
  induction before generalizing known with
  | nil => exact fun n hn => .inl (h.1 n hn)
  | cons first before ih =>
    intro n hn
    rcases ih h.2 n hn with hknown | hbefore
    · rcases List.mem_cons.1 hknown with rfl | hknown
      · exact .inr List.mem_cons_self
      · exact .inl hknown
    · exact .inr (List.mem_cons_of_mem _ hbefore)

namespace Schema

variable {name version : String} {declared before after : List TypeDef} {s : Schema} {d : TypeDef}

theorem builtins_isPrefix (h : build name version declared = .ok s) : builtins <+: s.ordered := by
  obtain ⟨-, -, -, -, -, order, horder, hordered⟩ := build_eq_ok_iff.1 h
  have hleaves : ∀ p < builtins.length, definitionEdges (builtins ++ declared) p = [] := by
    intro p hp
    refine List.eq_nil_iff_forall_not_mem.2 fun q hq => ?_
    obtain ⟨e, he, n, hn, -⟩ := edge_definitionEdges_iff.1 hq
    rw [List.getElem?_append_left hp] at he
    rw [references_of_mem_builtins (List.mem_of_getElem? he)] at hn
    cases hn
  have hlength : builtins.length ≤ (builtins ++ declared).length := by
    rw [List.length_append]
    exact Nat.le_add_right _ _
  have hprefix := range_isPrefix_of_dependencyOrder hlength hleaves horder
  have hfront : (List.range builtins.length).filterMap ((builtins ++ declared).toArray[·]?) =
      builtins := by
    conv_rhs => rw [← filterMap_getElem?_range builtins]
    refine List.filterMap_congr fun p hp => ?_
    rw [List.getElem?_toArray, List.getElem?_toArray,
      List.getElem?_append_left (List.mem_range.1 hp)]
  rw [hordered, ← hfront]
  exact hprefix.filterMap _

/-- The types that the code of a definition is about are listed before it. -/
theorem uses_before (h : build name version declared = .ok s)
    (hd : s.ordered = before ++ d :: after) : ∀ n ∈ d.uses, n ∈ before.map TypeDef.name := by
  intro n hn
  rcases List.mem_append.1 hn with hn | hn
  · have hfirst := (consistent_of_build h).definedFirst
    rw [hd] at hfirst
    exact (hfirst.mem_of_split n hn).resolve_left List.not_mem_nil
  · -- Only enumerations and groups have tags, so `d` stands behind all builtins.
    obtain ⟨b, htag, rfl⟩ := Option.map_eq_some_iff.1 (Option.mem_toList.1 hn)
    obtain ⟨rest, hrest⟩ := builtins_isPrefix h
    have hdeclared : d ∉ builtins := by
      intro hmem
      obtain ⟨b', rfl⟩ := mem_builtins.1 hmem
      cases htag
    have hfront : builtins <+: before := by
      rw [← hrest] at hd
      rcases List.append_eq_append_iff.1 hd with ⟨mid, hmid, -⟩ | ⟨mid, hmid, htail⟩
      · exact ⟨mid, hmid.symm⟩
      · cases mid with
        | nil => exact ⟨[], by rw [hmid, List.append_nil, List.append_nil]⟩
        | cons e mid =>
          obtain ⟨rfl, -⟩ := List.cons.inj htail
          exact absurd (hmid ▸ List.mem_append_right before List.mem_cons_self) hdeclared
    exact List.mem_map.2 ⟨.builtin b, hfront.subset (mem_builtins.2 ⟨b, rfl⟩), rfl⟩

end Schema
end WireCodec
