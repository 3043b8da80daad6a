import WireCodec.Proofs.Interrupted

/-!
# Operations that succeed

When the operations of a calm file system succeed, said by what the tree holds before.

* `Tree.Passable t X`           there is no file in `X`;
* `Path.EndsInside segments`    the segments name a directory from inside, as `out/.` does;
* `Tree.exists_makeDirs`        directories can be made where no file is on the way;
* `TreeSystem.makeDirs_of_calm`, `TreeSystem.makeParent_of_calm`
                                a calm file system makes them, and then the paths inside lead
                                somewhere.
-/

namespace WireCodec

/-! ## Ways to a directory -/

namespace Path

section
variable {k k' : Key} {segments front back : List String}

theorem eq_of_mem_stationsFrom_idle (h : ∀ segment ∈ segments, isIdle segment = true) {q : Key}
    (hq : q ∈ stationsFrom k segments) : q = k := by
  induction segments with
  | nil => cases hq
  | cons segment segments ih =>
    obtain ⟨hidle, hrest⟩ := List.forall_mem_cons.1 h
    rcases List.mem_cons.1 hq with rfl | hq
    · rfl
    · rw [step?_of_idle hidle] at hq
      exact ih hrest hq

theorem way_append_idle (h : ∀ segment ∈ back, isIdle segment = true)
    (hfront : follow k front = some k') : way k (front ++ back) ⊆ way k front := by
  rintro q (hq | hq)
  · rw [stationsFrom_append hfront] at hq
    rcases List.mem_append.1 hq with hq | hq
    · exact .inl hq
    · exact .inr (eq_of_mem_stationsFrom_idle h hq ▸ hfront)
  · rw [follow_append_of_eq hfront, follow_idle h] at hq
    exact .inr (hfront.trans hq)

/-- The segments end with a name and idle segments that name a directory from inside. -/
def EndsInside (segments : List String) : Prop :=
  ∃ front name back, segments = front ++ name :: back ∧ isIdle name = false ∧ name ≠ ".." ∧
    isInside back = true

theorem not_endsInside_of_name {name : String} (h : isIdle name = false) :
    ¬ EndsInside (front ++ [name]) := by
  rintro ⟨front', name', back, hsegments, -, -, hinside⟩
  rw [isInside, Bool.and_eq_true, List.all_eq_true] at hinside
  have hne : back ≠ [] := by
    rintro rfl
    cases hinside.2
  have hlast : back.getLast? = some name := by
    have hall := congrArg List.getLast? hsegments
    rw [List.getLast?_concat, List.append_cons, List.getLast?_append_of_ne_nil _ hne] at hall
    exact hall.symm
  rw [hinside.1 name (List.mem_of_getLast? hlast)] at h
  cases h

theorem exists_concat_of_mem_stemsAfter {done : List String} {p : Path}
    (h : p ∈ stemsAfter done segments) :
    ∃ front name, p.segments = front ++ [name] ∧ isIdle name = false := by
  induction segments generalizing done with
  | nil => cases h
  | cons segment segments ih =>
    rw [stemsAfter] at h
    split at h
    · exact ih h
    · next hname =>
      rcases List.mem_cons.1 h with rfl | h
      · exact ⟨done, segment, rfl, eq_false_of_ne_true hname⟩
      · exact ih h

theorem not_endsInside_parent (p : Path) : ¬ EndsInside p.parent.segments := by
  cases hlast : p.stems.dropLast.getLast? with
  | none =>
    rw [parent, hlast]
    rintro ⟨front, name, back, hnil, -⟩
    cases (List.append_eq_nil_iff.1 hnil.symm).2
  | some stem =>
    have hmem := (List.dropLast_prefix _).subset (List.mem_of_getLast? hlast)
    obtain ⟨front, name, hsegments, hname⟩ := exists_concat_of_mem_stemsAfter hmem
    rw [parent, hlast, Option.getD_some, hsegments]
    exact not_endsInside_of_name hname

end

section
variable {p : Path} {k : Key}

theorem exists_parent_of_endsWithName (h : p.endsWithName = true) (hplace : p.place? = some k) :
    ∃ more last, p.segments = p.parent.segments ++ more ∧ p.parent.place? = some last ∧
      ∀ q ∈ p.stations, q ∈ way [] p.parent.segments := by
  obtain ⟨segments⟩ := p
  unfold endsWithName at h
  split at h
  · cases h
  next name hlast =>
  rw [Bool.and_eq_true, Bool.not_eq_true', bne_iff_ne] at h
  obtain ⟨front, rfl⟩ : ∃ front, segments = front ++ [name] :=
    ⟨_, (List.dropLast_append_getLast? name hlast).symm⟩
  obtain ⟨idle, hfront, hidle⟩ := @exists_parent front [] name h.1 (by simp)
  rw [place?, follow_append] at hplace
  obtain ⟨last, hlast, -⟩ := Option.bind_eq_some_iff.1 hplace
  have hparent : follow [] (parent ⟨front ++ [name]⟩).segments = some last := by
    rw [hfront, follow_append] at hlast
    obtain ⟨k', hk', hidle'⟩ := Option.bind_eq_some_iff.1 hlast
    rw [follow_idle hidle] at hidle'
    cases hidle'
    exact hk'
  refine ⟨idle ++ [name], last, ?_, hparent, fun q hq => ?_⟩
  · rw [← List.append_assoc, ← hfront]
  · have hway : q ∈ way [] front := by
      rw [stations, stationsFrom_append hlast] at hq
      rcases List.mem_append.1 hq with hq | hq
      · exact .inl hq
      · rw [stationsFrom, step?_of_name h.1 h.2] at hq
        cases List.mem_singleton.1 hq
        exact .inr hlast
    rw [hfront] at hway
    exact way_append_idle hidle hparent hway

end
end Path

/-! ## Trees -/

namespace Tree

variable {t t' : Tree} {p : Path} {k : Key} {X Y P : Set Key}

def Passable (t : Tree) (X : Set Key) : Prop :=
  ∀ k ∈ X, ∀ contents, t.get? k ≠ some (.file contents)

theorem Passable.mono (h : t.Passable X) (hY : Y ⊆ X) : t.Passable Y :=
  fun k hk => h k (hY hk)

theorem Passable.grows (h : t.Passable X) (hgrows : Grows Y P t t') (hY : ∀ k ∈ X, k ∉ Y) :
    t'.Passable X :=
  fun k hk contents hget => h k hk contents ((hgrows.file_iff (hY k hk)).1 hget)

/-- A directory can be made in place of nothing, unless it is named from inside. -/
theorem exists_makeDir {name : String} {rest : List String} (hname : checkName name = .ok ())
    (hfile : ∀ contents, t.get? (k ++ [name]) ≠ some (.file contents))
    (hinside : Path.isInside rest = true → t.get? (k ++ [name]) = some .directory) :
    ∃ t', t.makeDir k name rest = .ok t' := by
  rw [makeDir, hname]
  cases hget : t.get? (k ++ [name]) with
  | none =>
    have hrest : ¬ Path.isInside rest = true := by
      intro h
      cases hget.symm.trans (hinside h)
    refine ⟨t.put (k ++ [name]) .directory, ?_⟩
    simp only [bind, Except.bind, if_neg hrest]
    rfl
  | some e =>
    cases e with
    | file contents => exact absurd hget (hfile contents)
    | directory => exact ⟨t, rfl⟩

theorem exists_makeDirsFrom {segments : List String} {last : Key}
    (hnames : ∀ segment ∈ segments, checkName segment = .ok ())
    (hlast : Path.follow k segments = some last) (hopen : t.Passable (Path.way k segments))
    (hinside : Path.EndsInside segments → t.get? last = some .directory) :
    ∃ t', makeDirsFrom k segments t = .ok () t' := by
  induction segments generalizing k t with
  | nil => exact ⟨t, rfl⟩
  | cons segment rest ih =>
    obtain ⟨hname, hrest⟩ := List.forall_mem_cons.1 hnames
    obtain ⟨next, hstep, hlast⟩ := Option.bind_eq_some_iff.1 hlast
    have hopen' : t.Passable (Path.way next rest) :=
      hopen.mono fun q hq => (Path.mem_way_cons_iff hstep).2 (.inr hq)
    have hinside' : Path.EndsInside rest → t.get? last = some .directory := by
      rintro ⟨front, name, back, rfl, hends⟩
      exact hinside ⟨segment :: front, name, back, rfl, hends⟩
    cases hidle : Path.isIdle segment with
    | true =>
      rw [Path.step?_of_idle hidle] at hstep
      cases hstep
      rw [makeDirsFrom, if_pos hidle]
      exact ih hrest hlast hopen' hinside'
    | false =>
      rw [makeDirsFrom, hidle, if_neg Bool.false_ne_true]
      by_cases hdots : segment = ".."
      · subst hdots
        have hroot : k ≠ [] := by
          rintro rfl
          cases hstep
        rw [show Path.step? k ".." = some k.dropLast from if_neg hroot] at hstep
        cases hstep
        rw [if_pos rfl, if_neg hroot]
        exact ih hrest hlast hopen' hinside'
      · rw [Path.step?_of_name hidle hdots] at hstep
        cases hstep
        rw [if_neg hdots]
        have hfile := hopen' _ (Path.mem_way_self _ rest)
        have hnamed : Path.isInside rest = true → t.get? (k ++ [segment]) = some .directory := by
          intro hback
          have hstay := Path.follow_idle (k := k ++ [segment])
            (List.all_eq_true.1 (Bool.and_eq_true_iff.1 hback).1)
          cases hstay.symm.trans hlast
          exact hinside ⟨[], segment, rest, rfl, hidle, hdots, hback⟩
        obtain ⟨t₁, hmake⟩ := exists_makeDir hname hfile hnamed
        rw [bind_of_ok (update_of_ok hmake)]
        have hgrows : Grows ∅ Set.univ t t₁ := by
          obtain ⟨-, rfl⟩ | ⟨hget, rfl⟩ := of_makeDir hmake
          · exact .refl _ _ _
          · exact grows_put_directory (by simp) hget (Set.mem_univ _)
        exact ih hrest hlast (hopen'.grows hgrows fun q _ => Set.notMem_empty q)
          fun hends => hgrows.keeps _ _ (Set.notMem_empty _) (hinside' hends)

/-- Directories can be made where no file is on the way. -/
theorem exists_makeDirs (hallowed : p.Allowed) (hplace : p.place? = some k)
    (hopen : t.Passable (Path.way [] p.segments))
    (hinside : Path.EndsInside p.segments → t.get? k = some .directory) :
    ∃ t', makeDirs p t = .ok () t' := by
  rw [makeDirs, hallowed.whole]
  exact exists_makeDirsFrom hallowed.names hplace hopen hinside

theorem denotes_of_parent (hname : p.endsWithName = true) (hallowed : p.Allowed)
    (hplace : p.place? = some k)
    (hopen : ∀ q ∈ Path.way [] p.parent.segments, t.get? q = some .directory) : t.Denotes p k := by
  obtain ⟨-, -, -, -, hstations⟩ := Path.exists_parent_of_endsWithName hname hplace
  exact ⟨hname, locate_eq_ok_iff.2 ⟨hallowed, hplace, fun q hq => hopen q (hstations q hq)⟩⟩

theorem writeFile_of_denotes (h : t.Denotes p k) (hfile : t.get? k ≠ some .directory)
    (contents : String) : t.writeFile p contents = .ok (t.put k (.file contents)) := by
  have hfits : ¬ (!p.endsWithName || decide (t.get? k = some .directory)) = true := by
    rw [h.endsWithName, decide_eq_false hfile]
    exact Bool.false_ne_true
  rw [writeFile, h.located]
  simp only [bind, Except.bind, if_neg hfits]
  rfl

theorem removeDirAll_of_directory (hk : t.locate p = .ok k) (hget : t.get? k = some .directory) :
    t.removeDirAll p = .ok (t.eraseAll k) := by
  refine except_bind_eq_ok_iff.2 ⟨k, hk, ?_⟩
  rw [hget]
  rfl

end Tree

/-! ## Calm file systems -/

namespace TreeSystem

variable {σ : Type} [FileSystem (EStateM FileFault σ)] (V : TreeSystem σ) {s : σ} {p : Path}
  {k : Key}

open WireCodec.Tree (Grows)

theorem makeDirs_of_calm (hcalm : V.calm s) (h : (V.tree s).Rooted) (hallowed : p.Allowed)
    (hplace : p.place? = some k) (hopen : (V.tree s).Passable (Path.way [] p.segments))
    (hinside : Path.EndsInside p.segments → (V.tree s).get? k = some .directory) :
    ∃ s', FileSystem.makeDirs (m := EStateM FileFault σ) p s = .ok () s' ∧ V.calm s' ∧
      Grows ∅ (Path.way [] p.segments) (V.tree s) (V.tree s') ∧ (V.tree s').Rooted ∧
      ∀ q ∈ Path.way [] p.segments, (V.tree s').get? q = some .directory := by
  rcases V.makeDirs_cases h p with
    ⟨s', hrun, hgrows, hrooted, hleads, hkept⟩ | ⟨e, s', hrun, -⟩
  · exact ⟨s', hrun, hkept hcalm, hgrows, hrooted, hleads.2⟩
  · obtain ⟨t', hmade⟩ := Tree.exists_makeDirs hallowed hplace hopen hinside
    have hagrees := V.makeDirs p s
    rw [hrun, hmade] at hagrees
    obtain ⟨-, htree | ⟨hnot, -⟩⟩ := hagrees
    · cases htree
    · exact absurd hcalm hnot

/-- With its parent made, a path leads to its place. -/
theorem makeParent_of_calm (hcalm : V.calm s) (h : (V.tree s).Rooted)
    (hname : p.endsWithName = true) (hallowed : p.Allowed) (hplace : p.place? = some k)
    (hopen : (V.tree s).Passable (Path.way [] p.parent.segments)) :
    ∃ s', FileSystem.makeDirs (m := EStateM FileFault σ) p.parent s = .ok () s' ∧ V.calm s' ∧
      Grows ∅ (Path.way [] p.parent.segments) (V.tree s) (V.tree s') ∧ (V.tree s').Rooted ∧
      (V.tree s').Denotes p k := by
  obtain ⟨more, last, hsegments, hparent, -⟩ := Path.exists_parent_of_endsWithName hname hplace
  have hallowed' : p.parent.Allowed := by
    have hwhole : Path.Allowed ⟨p.parent.segments ++ more⟩ := by
      rw [← hsegments]
      exact hallowed
    exact hwhole.of_append
  obtain ⟨s', hrun, hcalm', hgrows, hrooted, hleads⟩ := V.makeDirs_of_calm hcalm h hallowed'
    hparent hopen fun hends => absurd hends (Path.not_endsInside_parent p)
  exact ⟨s', hrun, hcalm', hgrows, hrooted, Tree.denotes_of_parent hname hallowed hplace hleads⟩

end TreeSystem
end WireCodec
