import WireCodec.Proofs.Staging

/-!
# Moving files into place

A staged file is moved in two steps: what is at its target is set aside, then the file takes its
place.  Each step only touches what is below the target, below the spare place for what was there
and below the staged file, so that later steps do not get in the way of taking it back.

* `Freed`              the target is free: what was there is set aside;
* `Turned`             the file is in its place;
* `undo_of_freed`      taking a move back restores every file that is not staged;
* `Installed`          all files are in their places, and what was there is set aside;
* `install_append_cases`, `install_cases`
                       moving files in: all are in place, or taking the moves back restores them.
-/

namespace WireCodec.Project

open FileSystem
open WireCodec.Tree (Grows Moved)

variable {d : Site} {file : GeneratedFile} {shelf : Shelf} {t t₁ t' : Tree} {k : Key}

/-! ## Places that are apart -/

theorem not_isPrefix_dropLast {c : List String} (h : c ≠ []) : ¬ c <+: c.dropLast := by
  intro hbegins
  have hlength := hbegins.length_le
  rw [List.length_dropLast] at hlength
  have hpos := List.length_pos_iff.2 h
  omega

namespace Site

/-- What moving a file in may need directories for. -/
def around (d : Site) (file : GeneratedFile) : Set Key :=
  d.reach (namesOf file).dropLast ∪
    d.reach (d.name :: Shelf.replaced.name :: namesOf file).dropLast

/-- At or below the target of a file. -/
def below (d : Site) (file : GeneratedFile) : Set Key :=
  d.under (namesOf file)

/-- At or below the place of what is set aside for a file. -/
def spare (d : Site) (file : GeneratedFile) : Set Key :=
  d.under (d.name :: Shelf.replaced.name :: namesOf file)

/-- At or below a staged file. -/
def own (d : Site) (file : GeneratedFile) : Set Key :=
  d.under (d.name :: Shelf.fresh.name :: namesOf file)

/-- What moving a file in may change. -/
def touched (d : Site) (file : GeneratedFile) : Set Key :=
  d.own file ∪ (d.below file ∪ d.spare file)

theorem own_subset_fresh : d.own file ⊆ d.fresh :=
  Path.Base.under_subset (List.prefix_append [d.name, Shelf.fresh.name] (namesOf file))

/-- The target of a file is not in the staging directory, nor that directory itself. -/
structure Apart (d : Site) (file : GeneratedFile) : Prop where
  fits : d.Fits file
  ne_nil : namesOf file ≠ []
  outside : ¬ [d.name] <+: namesOf file

/-- Only the staging directory itself could be a target that is not apart from it. -/
theorem Fits.apart (h : d.Fits file) (hne : namesOf file ≠ [])
    (hname : namesOf file ≠ [d.name]) : d.Apart file :=
  ⟨h, hne, fun hbegins => hname (h.outside hbegins)⟩

theorem Fits.apart_of_not_isPrefix (h : d.Fits file) (hne : namesOf file ≠ [])
    (hinto : ¬ d.targetKey file <+: d.stagedKey shelf file) : d.Apart file := by
  refine h.apart hne fun hname => hinto ?_
  rw [targetKey, stagedKey, List.prefix_append_right_inj, hname]
  exact List.prefix_append [d.name] _

theorem Apart.not_isPrefix (h : d.Apart file) (c : List String) :
    ¬ namesOf file <+: d.name :: c := by
  have hne := h.ne_nil
  have hout := h.outside
  cases hnames : namesOf file with
  | nil => exact absurd hnames hne
  | cons first rest =>
    rw [hnames] at hout
    intro hbegins
    rw [(List.cons_prefix_cons.1 hbegins).1] at hout
    exact hout (List.prefix_append [d.name] rest)

theorem Apart.not_isPrefix_names (h : d.Apart file) (c : List String) :
    ¬ d.name :: c <+: namesOf file :=
  fun hbegins => h.outside ((List.prefix_append [d.name] c).trans hbegins)

/-- Freeing a target does not touch a staged file or the way to it. -/
theorem Apart.notMem_of_reach (h : d.Apart file)
    (hk : k ∈ d.reach (d.name :: Shelf.fresh.name :: namesOf file)) :
    k ∉ d.below file ∪ d.spare file := by
  rintro (hmem | hmem)
  · exact Path.Base.notMem_under_of_reach (h.fits.clear h.ne_nil) (h.not_isPrefix _) hk hmem
  · refine notMem_of_clear ?_ hk hmem
    simp [Shelf.name]

/-- The directories for a move are not touched by it. -/
theorem Apart.notMem_of_around (h : d.Apart file) (hk : k ∈ d.around file) :
    k ∉ d.below file ∧ k ∉ d.spare file ∧ k ∉ d.fresh := by
  have hclear := h.fits.clear h.ne_nil
  rcases hk with hk | hk
  · have hout : ∀ c, ¬ d.name :: c <+: (namesOf file).dropLast :=
      fun c hbegins => h.not_isPrefix_names c (hbegins.trans (List.dropLast_prefix _))
    exact ⟨Path.Base.notMem_under_of_reach hclear (not_isPrefix_dropLast h.ne_nil) hk,
      notMem_of_clear (hout _) hk, notMem_of_clear (hout _) hk⟩
  · refine ⟨Path.Base.notMem_under_of_reach hclear ?_ hk, notMem_of_clear ?_ hk,
      notMem_of_clear ?_ hk⟩
    · exact fun hbegins => h.not_isPrefix _ (hbegins.trans (List.dropLast_prefix _))
    · exact not_isPrefix_dropLast (List.cons_ne_nil _ _)
    · intro hbegins
      have hbegins := hbegins.trans (List.dropLast_prefix _)
      simp [Shelf.name] at hbegins

section
variable {other : GeneratedFile}

/-- Moving a file in does not touch what is staged or set aside for another. -/
theorem Apart.stagedKey_notMem_touched (h : d.Apart file)
    (hother : ¬ namesOf file <+: namesOf other) : d.stagedKey shelf other ∉ d.touched file := by
  rintro (hmem | hmem | hmem)
  · cases shelf with
    | fresh => exact hother (stagedKey_mem_iff.1 hmem)
    | replaced => exact stagedKey_notMem (by decide) _ hmem
  · exact h.not_isPrefix _ (Path.Base.place_append_mem_under.1 hmem)
  · cases shelf with
    | fresh => exact stagedKey_notMem (by decide) _ hmem
    | replaced => exact hother (stagedKey_mem_iff.1 hmem)

theorem Apart.stagedKey_notMem_around (h : d.Apart file)
    (hother : ¬ namesOf other <+: namesOf file) : d.stagedKey shelf other ∉ d.around file := by
  rintro (hmem | hmem)
  · refine notMem_of_clear ?_ hmem (List.prefix_refl _)
    exact fun hbegins => h.not_isPrefix_names _ (hbegins.trans (List.dropLast_prefix _))
  · refine notMem_of_clear ?_ hmem (List.prefix_refl _)
    intro hbegins
    have hbegins := hbegins.trans (List.dropLast_prefix _)
    simp only [List.cons_prefix_cons, true_and] at hbegins
    exact hother hbegins.2

theorem Apart.targetKey_notMem_touched (h : d.Apart other)
    (hother : ¬ namesOf file <+: namesOf other) : d.targetKey other ∉ d.touched file := by
  rintro (hmem | hmem | hmem)
  · exact h.not_isPrefix_names _ (Path.Base.place_append_mem_under.1 hmem)
  · exact hother (Path.Base.place_append_mem_under.1 hmem)
  · exact h.not_isPrefix_names _ (Path.Base.place_append_mem_under.1 hmem)

theorem Apart.around_notMem_touched (h : d.Apart file) (h' : d.Apart other)
    (hother : ¬ namesOf file <+: namesOf other) (hk : k ∈ d.around other) : k ∉ d.touched file := by
  have hclear := h.fits.clear h.ne_nil
  rcases hk with hk | hk
  · have hk := Path.Base.reach_mono (List.dropLast_prefix _) hk
    rintro (hmem | hmem | hmem)
    · exact notMem_of_clear (h'.not_isPrefix_names _) hk hmem
    · exact Path.Base.notMem_under_of_reach hclear hother hk hmem
    · exact notMem_of_clear (h'.not_isPrefix_names _) hk hmem
  · have hk := Path.Base.reach_mono (List.dropLast_prefix _) hk
    rintro (hmem | hmem | hmem)
    · refine notMem_of_clear ?_ hk hmem
      simp [Shelf.name]
    · exact Path.Base.notMem_under_of_reach hclear (h.not_isPrefix _) hk hmem
    · refine notMem_of_clear ?_ hk hmem
      simpa using hother

end

theorem Fits.stations_target (h : d.Fits file) (hname : (d.target file).endsWithName = true) :
    ∀ q ∈ (d.target file).stations, q ∈ d.around file :=
  fun q hq => .inl (Path.Base.stations_subset h.downward (Path.segments_ofText_ne_nil _) hname q hq)

theorem Fits.stations_staged (h : d.Fits file)
    (hname : (d.staged shelf file).endsWithName = true) :
    ∀ q ∈ (d.staged shelf file).stations,
      q ∈ d.reach (d.name :: shelf.name :: namesOf file).dropLast := by
  intro q hq
  have hreach := Path.Base.stations_subset (h.staged_downward shelf) (List.cons_ne_nil _ _)
    hname q hq
  rwa [names_staged] at hreach

end Site

/-! ## Setting aside -/

/-- Nothing is at the target of a file any more; what was there may be set aside. -/
def Freed (d : Site) (file : GeneratedFile) (t : Tree) : Option Path → Tree → Prop
  | none, t' => Grows ∅ (d.around file) t t' ∧ t'.Rooted ∧ t'.find? (d.target file) = none
  | some previous, t' => previous = d.staged .replaced file ∧
    t.get? (d.stagedKey .replaced file) = none ∧ ∃ t₁, Grows ∅ (d.around file) t t₁ ∧ t₁.Rooted ∧
      t₁.Denotes (d.target file) (d.targetKey file) ∧
      t₁.Denotes previous (d.stagedKey .replaced file) ∧
      t₁.get? (d.targetKey file) ≠ none ∧ ¬ d.targetKey file <+: d.stagedKey .replaced file ∧
      Moved t₁ t' (d.targetKey file) (d.stagedKey .replaced file)

theorem stagedKey_notMem_around : d.stagedKey .replaced file ∉ d.around file := by
  rintro (hmem | hmem)
  · refine Site.notMem_of_clear ?_ hmem (List.prefix_refl _)
    intro hbegins
    have hlength := (hbegins.trans (List.dropLast_prefix _)).length_le
    simp only [List.length_cons] at hlength
    omega
  · refine Site.notMem_of_clear ?_ hmem (List.prefix_refl _)
    exact not_isPrefix_dropLast (List.cons_ne_nil _ _)

theorem freed_of_rename (hfits : d.Fits file) (hspare : t.get? (d.stagedKey .replaced file) = none)
    (hgrows : Grows ∅ (d.around file) t t₁) (hrooted : t₁.Rooted)
    (hrename : t₁.rename (d.target file) (d.staged .replaced file) = .ok t') :
    Freed d file t (some (d.staged .replaced file)) t' := by
  have hfree : ∀ b, t₁.locate (d.staged .replaced file) = .ok b → t₁.get? b = none := by
    intro b hb
    obtain rfl := Tree.eq_of_locate hb hfits.place?_staged
    exact hgrows.get?_eq_none (Set.notMem_empty _) stagedKey_notMem_around hspare
  obtain ⟨a, b, ha, hb, hsome, hinto, hmoved⟩ := Tree.of_rename hrooted hfree hrename
  obtain rfl := Tree.eq_of_locate ha.located hfits.place?_target
  obtain rfl := Tree.eq_of_locate hb.located hfits.place?_staged
  exact ⟨rfl, hspare, t₁, hgrows, hrooted, ha, hb, hsome, hinto, hmoved⟩

theorem Freed.rooted {previous : Option Path} (h : Freed d file t previous t') : t'.Rooted := by
  cases previous with
  | none => exact h.2.1
  | some previous =>
    obtain ⟨-, -, t₁, -, hrooted, -, haside, -, hinto, hmoved⟩ := h
    exact hmoved.rooted hrooted haside.directory hinto

theorem Freed.get?_target {aside : Path} (h : Freed d file t (some aside) t') :
    t'.get? (d.targetKey file) = none := by
  obtain ⟨-, -, t₁, -, -, -, -, -, -, hmoved⟩ := h
  refine hmoved.gone _ (List.prefix_refl _) fun hbegins => ?_
  have hlength := hbegins.length_le
  simp only [Site.stagedKey, Site.targetKey, List.length_append, List.length_cons] at hlength
  omega

theorem Freed.find?_target {previous : Option Path} (hfits : d.Fits file)
    (h : Freed d file t previous t') : t'.find? (d.target file) = none := by
  cases previous with
  | none => exact h.2.2
  | some aside =>
    unfold Tree.find?
    split
    · rename_i k hk
      obtain rfl := Tree.eq_of_locate hk hfits.place?_target
      exact h.get?_target
    · rfl

theorem Freed.get?_of_locate {previous : Option Path} (hfits : d.Fits file)
    (h : Freed d file t previous t') {b : Key} (hb : t'.locate (d.target file) = .ok b) :
    t'.get? b = none := by
  rw [← Tree.find?_of_locate hb]
  exact h.find?_target hfits

theorem Freed.grows {previous : Option Path} (h : Freed d file t previous t') :
    Grows (d.below file ∪ d.spare file) (d.around file) t t' := by
  cases previous with
  | none => exact h.1.mono (Set.empty_subset _) le_rfl
  | some previous =>
    obtain ⟨-, -, t₁, hgrows, -, -, -, -, -, hmoved⟩ := h
    exact (hgrows.mono (Set.empty_subset _) le_rfl).trans hmoved.grows

/-- Nothing is set aside for a file, or a directory which does not give way to the file that took
its place. -/
def Site.Kept (d : Site) (file : GeneratedFile) (t : Tree) : Prop :=
  t.get? (d.stagedKey .replaced file) = none ∨
    t.get? (d.stagedKey .replaced file) = some .directory ∧
      ∃ contents, t.get? (d.targetKey file) = some (.file contents)

theorem Site.Kept.spare_of_rename (hfits : d.Fits file) (hkept : d.Kept file t)
    (hgrows : Grows ∅ (d.around file) t t₁)
    (hrename : t₁.rename (d.target file) (d.staged .replaced file) = .ok t') :
    t.get? (d.stagedKey .replaced file) = none := by
  refine hkept.resolve_right ?_
  rintro ⟨haside, contents, htarget⟩
  have haside := hgrows.keeps _ _ (Set.notMem_empty _) haside
  have htarget := hgrows.keeps _ _ (Set.notMem_empty _) htarget
  unfold Tree.rename at hrename
  dsimp only at hrename
  split at hrename
  · cases hrename
  obtain ⟨a, ha, hrename⟩ := except_bind_eq_ok_iff.1 hrename
  obtain ⟨b, hb, hrename⟩ := except_bind_eq_ok_iff.1 hrename
  obtain rfl := Tree.eq_of_locate ha hfits.place?_target
  obtain rfl := Tree.eq_of_locate hb hfits.place?_staged
  rw [haside, htarget] at hrename
  cases hrename

section
variable {σ : Type} [FileSystem (EStateM FileFault σ)] (V : TreeSystem σ) {s : σ}

theorem free_cases (hfits : d.Fits file) (hne : namesOf file ≠ []) (h : (V.tree s).Rooted)
    (hkept : d.Kept file (V.tree s)) :
    (∃ previous s', (makeDirs (d.target file).parent >>= fun _ =>
        setAside (d.target file) (d.staged .replaced file) : EStateM FileFault σ _) s =
          .ok previous s' ∧ Freed d file (V.tree s) previous (V.tree s')) ∨
    ∃ e s', (makeDirs (d.target file).parent >>= fun _ =>
        setAside (d.target file) (d.staged .replaced file) : EStateM FileFault σ _) s =
          .error e s' ∧
      Grows ∅ (d.around file) (V.tree s) (V.tree s') ∧ (V.tree s').Rooted ∧ V.calm s' := by
  have hway : Path.way [] (d.target file).parent.segments ⊆ d.around file :=
    (hfits.way_parent_target hne).trans Set.subset_union_left
  have hway' : Path.way [] (d.staged .replaced file).parent.segments ⊆ d.around file :=
    hfits.way_parent_staged.trans Set.subset_union_right
  rcases V.makeDirs_cases h (d.target file).parent with
    ⟨s₁, hmake, hgrows, hrooted, -, -⟩ | ⟨e, s₁, hmake, hgrows, hrooted, hcalm⟩
  · have hgrows := hgrows.mono le_rfl hway
    rw [bind_of_ok hmake, setAside, bind_of_ok (V.pathExists (d.target file) s₁)]
    cases hfind : (V.tree s₁).find? (d.target file) with
    | none => exact .inl ⟨none, s₁, rfl, hgrows, hrooted, hfind⟩
    | some e =>
      rw [Option.isSome_some, if_pos rfl]
      rcases V.makeDirs_cases hrooted (d.staged .replaced file).parent with
        ⟨s₂, hmake₂, hgrows₂, hrooted₂, -, -⟩ | ⟨e, s₂, hmake₂, hgrows₂, hrooted₂, hcalm⟩
      · have hgrows₂ := hgrows.trans (hgrows₂.mono le_rfl hway')
        rw [bind_of_ok hmake₂]
        rcases V.update_cases (V.rename (d.target file) (d.staged .replaced file) s₂) with
          ⟨s', hrename, htree, -⟩ | ⟨e, s', hrename, hsame, hcalm⟩
        · rw [bind_of_ok hrename]
          have hspare := hkept.spare_of_rename hfits hgrows₂ htree
          exact .inl ⟨_, s', rfl, freed_of_rename hfits hspare hgrows₂ hrooted₂ htree⟩
        · rw [bind_of_error hrename]
          exact .inr ⟨e, s', rfl, hsame ▸ hgrows₂, hsame ▸ hrooted₂, hcalm⟩
      · rw [bind_of_error hmake₂]
        exact .inr ⟨e, s₂, rfl, hgrows.trans (hgrows₂.mono le_rfl hway'), hrooted₂, hcalm⟩
  · rw [bind_of_error hmake]
    exact .inr ⟨e, s₁, rfl, hgrows.mono le_rfl hway, hrooted, hcalm⟩

end

/-! ## Moving in -/

/-- The target was freed and the staged file moved there. -/
structure Turned (d : Site) (file : GeneratedFile) (t : Tree) (previous : Option Path)
    (t₁ t' : Tree) : Prop where
  apart : d.Apart file
  freed : Freed d file t previous t₁
  denotes : t₁.Denotes (d.target file) (d.targetKey file)
  source : t₁.get? (d.stagedKey .fresh file) = some (.file file.contents)
  moved : Moved t₁ t' (d.stagedKey .fresh file) (d.targetKey file)

section
variable {previous : Option Path}

/-- A file cannot be moved to where the staging directory is. -/
theorem Freed.apart (hfits : d.Fits file) (hne : namesOf file ≠ [])
    (h : Freed d file t previous t₁) (hdenotes : t₁.Denotes (d.target file) (d.targetKey file))
    (hsome : t₁.get? (d.stagedKey .fresh file) ≠ none) : d.Apart file := by
  cases previous with
  | none =>
    refine hfits.apart hne fun hname => ?_
    have hfree := h.get?_of_locate hfits hdenotes.located
    have hbelow := h.rooted.get?_append_of_none hfree ("new" :: namesOf file)
    rw [Site.targetKey, hname, List.append_assoc] at hbelow
    exact hsome (by rw [Site.stagedKey, hname]; exact hbelow)
  | some previous =>
    obtain ⟨-, -, _, -, -, -, -, -, hinto, -⟩ := h
    exact hfits.apart_of_not_isPrefix hne hinto

theorem turned_of_rename (hfits : d.Fits file) (hne : namesOf file ≠ [])
    (hstaged : t.get? (d.stagedKey .fresh file) = some (.file file.contents))
    (h : Freed d file t previous t₁)
    (hrename : t₁.rename (d.staged .fresh file) (d.target file) = .ok t') :
    Turned d file t previous t₁ t' := by
  obtain ⟨a, b, ha, hb, hsome, -, hmoved⟩ :=
    Tree.of_rename h.rooted (fun _ hb => h.get?_of_locate hfits hb) hrename
  obtain rfl := Tree.eq_of_locate ha.located hfits.place?_staged
  obtain rfl := Tree.eq_of_locate hb.located hfits.place?_target
  have hapart := h.apart hfits hne hb hsome
  have hout := hapart.notMem_of_reach (.inr ⟨_, rfl, List.prefix_refl _⟩)
  exact ⟨hapart, h, hb, h.grows.keeps _ _ hout hstaged, hmoved⟩

namespace Turned

theorem rooted (h : Turned d file t previous t₁ t') : t'.Rooted := by
  refine h.moved.rooted h.freed.rooted h.denotes.directory fun hbegins => ?_
  exact h.apart.not_isPrefix_names _ (Path.Base.place_append_mem_under.1 hbegins)

theorem grows (h : Turned d file t previous t₁ t') :
    Grows (d.touched file) (d.around file) t t' := by
  refine (h.freed.grows.mono Set.subset_union_right le_rfl).trans (h.moved.grows.mono ?_ le_rfl)
  rintro k (hk | hk)
  · exact .inl hk
  · exact .inr (.inl hk)

theorem free (h : Turned d file t previous t₁ t') (hk : k ∈ d.below file) : t₁.get? k = none := by
  obtain ⟨x, rfl⟩ := hk
  have hfree := h.freed.get?_of_locate h.apart.fits h.denotes.located
  exact h.freed.rooted.get?_append_of_none hfree x

theorem get?_target (h : Turned d file t previous t₁ t') :
    t'.get? (d.targetKey file) = some (.file file.contents) := by
  have harrived := h.moved.arrived []
  rw [List.append_nil, List.append_nil, h.source] at harrived
  exact harrived

theorem eq_of_mem_below (h : Turned d file t previous t₁ t') {e : Entry} (hk : k ∈ d.below file)
    (hget : t'.get? k = some e) : k = d.targetKey file := by
  obtain ⟨x, rfl⟩ := hk
  by_cases hx : x = []
  · rw [hx, List.append_nil]
    rfl
  · cases hget.symm.trans (h.rooted.get?_append_of_file h.get?_target hx)

/-- Apart from the file itself, the move in changed nothing that is not staged. -/
theorem get?_of_notMem (h : Turned d file t previous t₁ t') (hfresh : k ∉ d.fresh)
    (hbelow : k ∉ d.below file) : t'.get? k = t₁.get? k :=
  h.moved.others k (fun hmem => hfresh (Site.own_subset_fresh hmem)) hbelow

theorem get?_staged (h : Turned d file t previous t₁ t') :
    t'.get? (d.stagedKey .fresh file) = none :=
  h.moved.gone _ (List.prefix_refl _)
    fun hbegins => h.apart.not_isPrefix _ (Path.Base.place_append_mem_under.1 hbegins)

theorem file_of_aside (h : Turned d file t previous t₁ t')
    (hspare : t.get? (d.stagedKey .replaced file) = none) {contents : String}
    (hget : t'.get? (d.stagedKey .replaced file) = some (.file contents)) :
    t.get? (d.targetKey file) = some (.file contents) := by
  have hfresh : d.stagedKey .replaced file ∉ d.fresh := Site.stagedKey_notMem (by decide) []
  have hbelow : d.stagedKey .replaced file ∉ d.below file :=
    fun hmem => h.apart.not_isPrefix _ (Path.Base.place_append_mem_under.1 hmem)
  rw [h.get?_of_notMem hfresh hbelow] at hget
  have hfreed := h.freed
  cases previous with
  | none =>
    have hnone := hfreed.1.get?_eq_none (Set.notMem_empty _) stagedKey_notMem_around hspare
    cases hnone.symm.trans hget
  | some aside =>
    obtain ⟨-, -, t₀, hgrows, -, -, -, -, -, hmoved⟩ := hfreed
    have harrived := hmoved.arrived []
    rw [List.append_nil, List.append_nil, hget] at harrived
    exact (hgrows.file_iff (Set.notMem_empty _)).1 harrived.symm

theorem denotes_target (h : Turned d file t previous t₁ t') :
    t'.Denotes (d.target file) (d.targetKey file) := by
  refine h.denotes.congr fun q hq hopen => ?_
  have haround := h.apart.fits.stations_target h.denotes.endsWithName q hq
  obtain ⟨hbelow, -, hfresh⟩ := h.apart.notMem_of_around haround
  rw [h.get?_of_notMem hfresh hbelow]
  exact hopen

end Turned
end

/-! ## Taking back -/

section
variable {previous : Option Path} {t₂ : Tree}

/-- The file that was moved in can be taken out, whatever directories were made meanwhile. -/
theorem Turned.removeFile (h : Turned d file t previous t₁ t')
    (hgrows : Grows d.fresh Set.univ t' t₂) (hrooted : t₂.Rooted) :
    t₂.removeFile (d.target file) = .ok (t₂.erase (d.targetKey file)) ∧
      (t₂.erase (d.targetKey file)).Rooted ∧
      (t₂.erase (d.targetKey file)).get? (d.targetKey file) = none ∧
      Grows d.fresh Set.univ t₁ (t₂.erase (d.targetKey file)) := by
  have hne := h.denotes.ne_nil
  have hout : d.targetKey file ∉ d.fresh :=
    fun hmem => h.apart.not_isPrefix_names _ (Path.Base.place_append_mem_under.1 hmem)
  have hget := hgrows.keeps _ _ hout h.get?_target
  have hdenotes : t₂.Denotes (d.target file) (d.targetKey file) := by
    refine h.denotes_target.congr fun q hq hopen => hgrows.keeps q _ ?_ hopen
    have haround := h.apart.fits.stations_target h.denotes.endsWithName q hq
    exact (h.apart.notMem_of_around haround).2.2
  refine ⟨Tree.removeFile_of_file hdenotes.located hget, hrooted.erase_file hne hget, ?_, ?_, ?_⟩
  · rw [Tree.get?_erase hne, if_pos rfl]
  · intro k e hfresh hentry
    have hbelow : k ∉ d.below file := by
      intro hmem
      rw [h.free hmem] at hentry
      cases hentry
    have hk : k ≠ d.targetKey file := fun heq => hbelow (heq ▸ List.prefix_refl _)
    rw [Tree.get?_erase hne, if_neg hk]
    rw [← h.get?_of_notMem hfresh hbelow] at hentry
    exact hgrows.keeps k e hfresh hentry
  · intro k e hfresh hentry
    rw [Tree.get?_erase hne] at hentry
    split at hentry
    · cases hentry
    · rename_i hk
      refine (hgrows.adds k e hfresh hentry).imp_left fun hold => ?_
      have hbelow : k ∉ d.below file := fun hmem => hk (h.eq_of_mem_below hmem hold)
      rw [← h.get?_of_notMem hfresh hbelow]
      exact hold

/-- What was set aside can be put back, whatever directories were made meanwhile. -/
theorem Freed.rename (hfits : d.Fits file) (hne : namesOf file ≠ []) {aside : Path}
    (h : Freed d file t (some aside) t₁)
    (hgrows : Grows d.fresh Set.univ t₁ t₂) (hrooted : t₂.Rooted)
    (hfree : t₂.get? (d.targetKey file) = none) :
    ∃ t', t₂.rename aside (d.target file) = .ok t' ∧ t'.Rooted ∧
      Grows d.fresh Set.univ t t' := by
  obtain ⟨rfl, hspare, t₀, hmade, hrooted₀, htarget, haside, hsome, hinto, hmoved⟩ := h
  have hapart := hfits.apart_of_not_isPrefix hne hinto
  have hinto' : ¬ d.stagedKey .replaced file <+: d.targetKey file :=
    fun hbegins => hapart.not_isPrefix_names _ (Path.Base.place_append_mem_under.1 hbegins)
  have hout : ∀ x, d.stagedKey .replaced file ++ x ∉ d.fresh :=
    fun x => Site.stagedKey_append_notMem (by decide) x []
  have hopen : ∀ q ∈ d.around file, t₀.get? q = some .directory →
      t₂.get? q = some .directory := by
    intro q hq hget
    obtain ⟨hbelow, haway, hfresh⟩ := hapart.notMem_of_around hq
    refine hgrows.keeps q _ hfresh ?_
    rw [hmoved.others q hbelow haway]
    exact hget
  have htarget := htarget.congr fun q hq =>
    hopen q (hfits.stations_target htarget.endsWithName q hq)
  have haside := haside.congr fun q hq =>
    hopen q (.inr (hfits.stations_staged haside.endsWithName q hq))
  have hthere : t₂.get? (d.stagedKey .replaced file) ≠ none := by
    obtain ⟨e, he⟩ := Option.ne_none_iff_exists'.1 hsome
    have harrived := hmoved.arrived []
    rw [List.append_nil, List.append_nil, he] at harrived
    have hkept := hgrows.keeps _ e (by simpa using hout []) harrived
    rw [hkept]
    exact Option.some_ne_none e
  obtain ⟨t', hrename, hback⟩ := Tree.exists_rename hrooted haside htarget hthere hfree hinto'
  refine ⟨t', hrename, hback.rooted hrooted htarget.directory hinto', ?_⟩
  have hspare₀ : t₀.get? (d.stagedKey .replaced file) = none :=
    hmade.get?_eq_none (Set.notMem_empty _) stagedKey_notMem_around hspare
  exact (hmade.mono (Set.empty_subset _) (Set.subset_univ _)).trans
    (hmoved.moved_back hgrows hback (hrooted₀.get?_append_of_none hspare₀) hout)

end

section
variable {σ : Type} [FileSystem (EStateM FileFault σ)] {s s₁ s' : σ} {target aside : Path}
  {r r' : Except FileFault Unit}

theorem rollBack_one_none
    (h : (attempt (removeFile target) : EStateM FileFault σ _) s = .ok r s') :
    (rollBack [⟨target, none⟩] : EStateM FileFault σ _) s = .ok () s' := by
  have hmove : (attempt (removeFile target) >>= fun _ => pure () : EStateM FileFault σ Unit) s =
      .ok () s' := (bind_of_ok h).trans rfl
  exact (bind_of_ok hmove).trans rfl

theorem rollBack_one_some
    (h : (attempt (removeFile target) : EStateM FileFault σ _) s = .ok r s₁)
    (h' : (attempt (rename aside target) : EStateM FileFault σ _) s₁ = .ok r' s') :
    (rollBack [⟨target, some aside⟩] : EStateM FileFault σ _) s = .ok () s' := by
  have hmove : (attempt (removeFile target) >>= fun _ => attempt (rename aside target) >>=
      fun _ => pure () : EStateM FileFault σ Unit) s = .ok () s' :=
    (bind_of_ok h).trans ((bind_of_ok h').trans rfl)
  exact (bind_of_ok hmove).trans rfl

variable (V : TreeSystem σ) {previous : Option Path}

/-- All that is not staged is as it was in `t`, except for directories left behind. -/
structure Restored (d : Site) (t : Tree) (s : σ) : Prop where
  calm : V.calm s
  rooted : (V.tree s).Rooted
  grows : Grows d.fresh Set.univ t (V.tree s)

/-- Taking a move back, once no file is at the target any more. -/
theorem undo_of_freed (hfits : d.Fits file) (hne : namesOf file ≠ [])
    (hfreed : Freed d file t previous t₁)
    (hremove : (attempt (removeFile (d.target file)) : EStateM FileFault σ _) s = .ok r s₁)
    (h : Restored V d t₁ s₁)
    (hfree : previous ≠ none → (V.tree s₁).get? (d.targetKey file) = none) :
    ∃ s', (rollBack [⟨d.target file, previous⟩] : EStateM FileFault σ _) s = .ok () s' ∧
      Restored V d t s' := by
  cases previous with
  | none =>
    refine ⟨s₁, rollBack_one_none hremove, h.calm, h.rooted, ?_⟩
    exact (hfreed.1.mono (Set.empty_subset _) (Set.subset_univ _)).trans h.grows
  | some aside =>
    obtain ⟨t', hrename, hrooted, hgrows⟩ :=
      hfreed.rename hfits hne h.grows h.rooted (hfree (Option.some_ne_none aside))
    obtain ⟨s', hrun, htree, hcalm⟩ :=
      V.update_of_calm (V.rename aside (d.target file) s₁) h.calm hrename
    subst htree
    exact ⟨s', rollBack_one_some hremove (attempt_of_ok hrun), hcalm, hrooted, hgrows⟩

theorem Freed.undo (hfits : d.Fits file) (hne : namesOf file ≠ [])
    (hfreed : Freed d file t previous (V.tree s)) :
    ∃ s', (rollBack [⟨d.target file, previous⟩] : EStateM FileFault σ _) s = .ok () s' ∧
      Restored V d t s' := by
  have hfind := hfreed.find?_target hfits
  -- There is no file to take out.
  obtain ⟨r, s₁, hremove, hsame, hcalm₁⟩ : ∃ r s₁, (attempt (removeFile (d.target file)) :
      EStateM FileFault σ _) s = .ok r s₁ ∧ V.tree s₁ = V.tree s ∧ V.calm s₁ := by
    rcases V.update_cases (V.removeFile (d.target file) s) with
      ⟨s₁, -, htree, -⟩ | ⟨e, s₁, hrun, hsame, hcalm₁⟩
    · obtain ⟨k, contents, hk, hget, -⟩ := Tree.of_removeFile htree
      rw [Tree.find?_of_locate hk, hget] at hfind
      cases hfind
    · exact ⟨_, s₁, attempt_of_error hrun, hsame, hcalm₁⟩
  refine undo_of_freed V hfits hne hfreed hremove ?_ fun hprevious => ?_
  · exact ⟨hcalm₁, hsame ▸ hfreed.rooted, hsame ▸ .refl _ _ _⟩
  · rw [hsame]
    obtain ⟨aside, rfl⟩ := Option.ne_none_iff_exists'.1 hprevious
    exact hfreed.get?_target

/-- A completed move is taken back, once all later ones are. -/
theorem Turned.undo (h : Turned d file t previous t₁ t') (hrestored : Restored V d t' s) :
    ∃ s', (rollBack [⟨d.target file, previous⟩] : EStateM FileFault σ _) s = .ok () s' ∧
      Restored V d t s' := by
  obtain ⟨hremove, hrooted, hfree, hgrows⟩ := h.removeFile hrestored.grows hrestored.rooted
  obtain ⟨s₁, hrun, htree, hcalm⟩ :=
    V.update_of_calm (V.removeFile (d.target file) s) hrestored.calm hremove
  refine undo_of_freed V h.apart.fits h.apart.ne_nil h.freed (attempt_of_ok hrun) ?_ ?_
  · rw [← htree] at hrooted hgrows
    exact ⟨hcalm, hrooted, hgrows⟩
  · rw [htree]
    exact fun _ => hfree

end

/-! ## Moving all files in -/

section
variable {files : List GeneratedFile}

/-- Files with targets that are not inside each other. -/
structure Assorted (d : Site) (files : List GeneratedFile) : Prop where
  fits : ∀ file ∈ files, d.Fits file
  ne_nil : ∀ file ∈ files, namesOf file ≠ []
  apart : files.Pairwise fun file other =>
    ¬ namesOf file <+: namesOf other ∧ ¬ namesOf other <+: namesOf file

theorem Assorted.tail (h : Assorted d (file :: files)) : Assorted d files where
  fits := (List.forall_mem_cons.1 h.fits).2
  ne_nil := (List.forall_mem_cons.1 h.ne_nil).2
  apart := h.apart.of_cons

/-- The files are staged, and nothing is set aside for them. -/
structure Ready (d : Site) (files : List GeneratedFile) (t : Tree) : Prop where
  rooted : t.Rooted
  staged : ∀ file ∈ files, t.get? (d.stagedKey .fresh file) = some (.file file.contents)
  spare : ∀ file ∈ files, t.get? (d.stagedKey .replaced file) = none

/-- The files are in place, and what was there is set aside. -/
structure Installed (d : Site) (files : List GeneratedFile) (t t' : Tree) : Prop where
  apart : ∀ file ∈ files, d.Apart file
  rooted : t'.Rooted
  grows : Grows {k | ∃ file ∈ files, k ∈ d.touched file} {k | ∃ file ∈ files, k ∈ d.around file}
    t t'
  placed : ∀ file ∈ files, t'.find? (d.target file) = some (.file file.contents)
  spent : ∀ file ∈ files, t'.get? (d.stagedKey .fresh file) = none
  aside : ∀ file ∈ files, ∀ contents,
    t'.get? (d.stagedKey .replaced file) = some (.file contents) →
      t.get? (d.targetKey file) = some (.file contents)

variable {previous : Option Path}

theorem Ready.tail (hfiles : Assorted d (file :: files)) (h : Ready d (file :: files) t)
    (hturned : Turned d file t previous t₁ t') : Ready d files t' := by
  have hapart := hturned.apart
  have hothers := (List.pairwise_cons.1 hfiles.apart).1
  refine ⟨hturned.rooted, fun other hother => ?_, fun other hother => ?_⟩
  · exact hturned.grows.keeps _ _ (hapart.stagedKey_notMem_touched (hothers other hother).1)
      (h.staged other (List.mem_cons_of_mem _ hother))
  · exact hturned.grows.get?_eq_none (hapart.stagedKey_notMem_touched (hothers other hother).1)
      (hapart.stagedKey_notMem_around (hothers other hother).2)
      (h.spare other (List.mem_cons_of_mem _ hother))

theorem installed_nil (h : t.Rooted) : Installed d [] t t where
  apart := by simp
  rooted := h
  grows := .refl _ _ t
  placed := by simp
  spent := by simp
  aside := by simp

theorem Installed.cons (hfiles : Assorted d (file :: files)) (h : Ready d (file :: files) t)
    (hturned : Turned d file t previous t₁ t') {t'' : Tree} (hrest : Installed d files t' t'') :
    Installed d (file :: files) t t'' := by
  have hapart := hturned.apart
  have hothers := (List.pairwise_cons.1 hfiles.apart).1
  -- Later moves do not touch what is around this file, at its target or in the staging directory.
  have haround : ∀ q ∈ d.around file, q ∉ {k | ∃ other ∈ files, k ∈ d.touched other} := by
    rintro q hq ⟨other, hother, hmem⟩
    exact (hrest.apart other hother).around_notMem_touched hapart (hothers other hother).2 hq hmem
  have htarget : d.targetKey file ∉ {k | ∃ other ∈ files, k ∈ d.touched other} := by
    rintro ⟨other, hother, hmem⟩
    exact hapart.targetKey_notMem_touched (hothers other hother).2 hmem
  have hstaged : ∀ shelf, d.stagedKey shelf file ∉ {k | ∃ other ∈ files, k ∈ d.touched other} := by
    rintro shelf ⟨other, hother, hmem⟩
    exact (hrest.apart other hother).stagedKey_notMem_touched (hothers other hother).2 hmem
  refine ⟨?_, hrest.rooted, ?_, ?_, ?_, ?_⟩
  · exact List.forall_mem_cons.2 ⟨hapart, hrest.apart⟩
  · refine (hturned.grows.mono ?_ ?_).trans (hrest.grows.mono ?_ ?_)
    · exact fun k hk => ⟨file, List.mem_cons_self, hk⟩
    · exact fun k hk => ⟨file, List.mem_cons_self, hk⟩
    · exact fun k ⟨other, hother, hk⟩ => ⟨other, List.mem_cons_of_mem _ hother, hk⟩
    · exact fun k ⟨other, hother, hk⟩ => ⟨other, List.mem_cons_of_mem _ hother, hk⟩
  · refine List.forall_mem_cons.2 ⟨?_, hrest.placed⟩
    have hdenotes : t''.Denotes (d.target file) (d.targetKey file) :=
      hturned.denotes_target.congr fun q hq hopen => hrest.grows.keeps q _
        (haround q (hapart.fits.stations_target hturned.denotes.endsWithName q hq)) hopen
    rw [Tree.find?_of_locate hdenotes.located]
    exact hrest.grows.keeps _ _ htarget hturned.get?_target
  · refine List.forall_mem_cons.2 ⟨hrest.grows.get?_eq_none (hstaged .fresh) ?_ hturned.get?_staged,
      hrest.spent⟩
    rintro ⟨other, hother, hmem⟩
    exact (hrest.apart other hother).stagedKey_notMem_around (hothers other hother).1 hmem
  · refine List.forall_mem_cons.2 ⟨fun contents hget => ?_, fun other hother contents hget => ?_⟩
    · exact hturned.file_of_aside (h.spare file List.mem_cons_self)
        ((hrest.grows.file_iff (hstaged .replaced)).1 hget)
    · exact (hturned.grows.file_iff ((hrest.apart other hother).targetKey_notMem_touched
        (hothers other hother).1)).1 (hrest.aside other hother contents hget)

variable {σ : Type} [FileSystem (EStateM FileFault σ)] (V : TreeSystem σ) {s : σ} {dir : Path}

/-- All files are moved in, which can be taken back, or taking back the moves made restores all
that is not staged.  Whatever files follow, they come after those. -/
theorem install_append_cases (hdir : d.segments = Path.dropSlash dir.segments)
    (hfiles : Assorted d files) (h : Ready d files (V.tree s)) (moves : List Move) :
    (∃ made s', (∀ rest, (install dir (d.shelfDir .fresh) (d.shelfDir .replaced) moves
          (files ++ rest) : EStateM FileFault σ _) s =
        (install dir (d.shelfDir .fresh) (d.shelfDir .replaced) (made ++ moves) rest :
          EStateM FileFault σ _) s') ∧
      Installed d files (V.tree s) (V.tree s') ∧
      ∀ s₁, Restored V d (V.tree s') s₁ → ∃ s₂,
        (rollBack made : EStateM FileFault σ _) s₁ = .ok () s₂ ∧ Restored V d (V.tree s) s₂) ∨
    ∃ made e s' s'', (∀ rest, (install dir (d.shelfDir .fresh) (d.shelfDir .replaced) moves
          (files ++ rest) : EStateM FileFault σ _) s = .ok (made ++ moves, .error e) s') ∧
      (rollBack made : EStateM FileFault σ _) s' = .ok () s'' ∧ Restored V d (V.tree s) s'' := by
  induction files generalizing s moves with
  | nil =>
    exact .inl ⟨[], s, fun _ => rfl, installed_nil h.rooted,
      fun s₁ hrestored => ⟨s₁, rfl, hrestored⟩⟩
  | cons file files ih =>
    have hfits := hfiles.fits file List.mem_cons_self
    have hne := hfiles.ne_nil file List.mem_cons_self
    have hspare := h.spare file List.mem_cons_self
    simp only [List.cons_append, install, hfits.placeIn_dir hdir, hfits.placeIn_shelf]
    rcases free_cases V hfits hne h.rooted (.inl hspare) with
      ⟨previous, s₁, hrun, hfreed⟩ | ⟨e, s₁, hrun, hgrows, hrooted, hcalm⟩
    · simp only [bind_of_ok (attempt_of_ok hrun)]
      rcases V.update_cases (V.rename (d.staged .fresh file) (d.target file) s₁) with
        ⟨s₂, hrename, htree, -⟩ | ⟨e, s₂, hrename, hsame, -⟩
      · simp only [bind_of_ok (attempt_of_ok hrename)]
        have hturned := turned_of_rename hfits hne (h.staged file List.mem_cons_self) hfreed htree
        rcases ih hfiles.tail (h.tail hfiles hturned) (⟨d.target file, previous⟩ :: moves) with
          ⟨made, s', hrest, hinstalled, hback⟩ | ⟨made, e, s', s'', hrest, hback, hrestored⟩
        · refine .inl ⟨made ++ [⟨d.target file, previous⟩], s', fun rest => ?_,
            hinstalled.cons hfiles h hturned, fun s₃ hrestored => ?_⟩
          · rw [hrest, List.append_assoc]
            rfl
          · obtain ⟨s₄, hundo, hrestored⟩ := hback s₃ hrestored
            obtain ⟨s₅, hundo', hrestored⟩ := hturned.undo V hrestored
            exact ⟨s₅, (forM_append_of_ok hundo).trans hundo', hrestored⟩
        · obtain ⟨s₃, hundo, hrestored⟩ := hturned.undo V hrestored
          refine .inr ⟨made ++ [⟨d.target file, previous⟩], e, s', s₃, fun rest => ?_, ?_,
            hrestored⟩
          · rw [hrest, List.append_assoc]
            rfl
          · exact (forM_append_of_ok hback).trans hundo
      · simp only [bind_of_ok (attempt_of_error hrename)]
        rw [← hsame] at hfreed
        obtain ⟨s', hundo, hrestored⟩ := hfreed.undo V hfits hne
        exact .inr ⟨[⟨d.target file, previous⟩], e, s₂, s', fun _ => rfl, hundo, hrestored⟩
    · simp only [bind_of_ok (attempt_of_error hrun)]
      refine .inr ⟨[], e, s₁, s₁, fun _ => rfl, rfl, hcalm, hrooted, ?_⟩
      exact hgrows.mono (Set.empty_subset _) (Set.subset_univ _)

/-- All files are moved in, or taking back the moves made restores all that is not staged. -/
theorem install_cases (hdir : d.segments = Path.dropSlash dir.segments)
    (hfiles : Assorted d files) (h : Ready d files (V.tree s)) (moves : List Move) :
    (∃ made s', (install dir (d.shelfDir .fresh) (d.shelfDir .replaced) moves files :
        EStateM FileFault σ _) s = .ok (made, .ok ()) s' ∧
      Installed d files (V.tree s) (V.tree s')) ∨
    ∃ made e s' s'', (install dir (d.shelfDir .fresh) (d.shelfDir .replaced) moves files :
        EStateM FileFault σ _) s = .ok (made ++ moves, .error e) s' ∧
      (rollBack made : EStateM FileFault σ _) s' = .ok () s'' ∧ Restored V d (V.tree s) s'' := by
  rcases install_append_cases V hdir hfiles h moves with
    ⟨made, s', hrun, hinstalled, -⟩ | ⟨made, e, s', s'', hrun, hback, hrestored⟩
  · have hrun := hrun []
    rw [List.append_nil] at hrun
    exact .inl ⟨made ++ moves, s', hrun, hinstalled⟩
  · have hrun := hrun []
    rw [List.append_nil] at hrun
    exact .inr ⟨made, e, s', s'', hrun, hback, hrestored⟩

end

end WireCodec.Project
