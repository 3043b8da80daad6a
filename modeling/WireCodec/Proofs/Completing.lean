import Mathlib.Data.List.Infix
import WireCodec.Proofs.Progress
import WireCodec.Proofs.Restoring

/-!
# Writes that succeed

A calm file system writes a project whenever the tree has room for it: no file is on the way to
the directory of the project or above a target, and none is where the staging directory goes.

* `Site.Movable`          a file whose paths are allowed and that is apart from staging;
* `stage_of_calm`         all files are staged;
* `Going`, `turn_of_calm`, `install_of_calm`
                          a file is moved in and the others can still be, so all are;
* `write_of_calm`         the project is written, and nothing else has changed;
* `exists_write_blocked`  a file where the staging directory goes keeps it from being written.
-/

namespace WireCodec.Project

open FileSystem
open WireCodec.Tree (Grows)

namespace Site

variable {d : Site} {file other : GeneratedFile} {shelf : Shelf}

/-- A file that can be staged and moved in, within the limits on paths. -/
structure Movable (d : Site) (file : GeneratedFile) : Prop where
  apart : d.Apart file
  named : Path.endsWithName ⟨segmentsOf file⟩ = true
  target : (d.target file).Allowed
  staged (shelf : Shelf) : (d.staged shelf file).Allowed

theorem Movable.endsWithName_target (h : d.Movable file) :
    (d.target file).endsWithName = true :=
  Site.endsWithName_target.trans h.named

theorem Movable.endsWithName_staged (h : d.Movable file) :
    (d.staged shelf file).endsWithName = true :=
  Site.endsWithName_staged.trans h.named

/-- The places on the way to a file in the staging directory. -/
def toShelf (d : Site) (shelf : Shelf) (file : GeneratedFile) : Set Key :=
  d.reach (d.name :: shelf.name :: namesOf file).dropLast

/-- A staged file is not on the way to another. -/
theorem stagedKey_notMem_toShelf (h : ¬ namesOf file <+: namesOf other) :
    d.stagedKey shelf file ∉ d.toShelf shelf other := by
  intro hmem
  refine notMem_of_clear ?_ hmem (List.prefix_refl _)
  intro hbegins
  have hbegins := hbegins.trans (List.dropLast_prefix _)
  simp only [List.cons_prefix_cons, true_and] at hbegins
  exact h hbegins

/-- Moving a file in does not touch the way to the directory of the project. -/
theorem Apart.notMem_touched_of_reach (h : d.Apart file) {k : Key} (hk : k ∈ d.reach []) :
    k ∉ d.touched file := by
  have haround : k ∈ d.around file := .inl (Path.Base.reach_mono List.nil_prefix hk)
  obtain ⟨hbelow, hspare, hfresh⟩ := h.notMem_of_around haround
  rintro (hmem | hmem | hmem)
  · exact hfresh (own_subset_fresh hmem)
  · exact hbelow hmem
  · exact hspare hmem

theorem stagedKey_notMem_toShelf_self : d.stagedKey shelf file ∉ d.toShelf shelf file :=
  fun hmem => notMem_of_clear (not_isPrefix_dropLast (List.cons_ne_nil _ _)) hmem
    (List.prefix_refl _)

end Site

variable {d : Site} {file : GeneratedFile} {files : List GeneratedFile}
  {σ : Type} [FileSystem (EStateM FileFault σ)] (V : TreeSystem σ) {s : σ}

/-! ## Staging -/

theorem stage_one_of_calm (hfile : d.Movable file) (hcalm : V.calm s) (h : (V.tree s).Rooted)
    (hopen : (V.tree s).Passable (d.toShelf .fresh file))
    (hfree : (V.tree s).get? (d.stagedKey .fresh file) ≠ some .directory) :
    ∃ s', (makeDirs (d.staged .fresh file).parent >>= fun _ =>
        writeFile (d.staged .fresh file) file.contents : EStateM FileFault σ Unit) s = .ok () s' ∧
      V.calm s' ∧ (V.tree s').Rooted ∧
      Grows {d.stagedKey .fresh file} (d.toShelf .fresh file) (V.tree s) (V.tree s') := by
  have hfits := hfile.apart.fits
  obtain ⟨s₁, hmake, hcalm₁, hgrows, hrooted, hdenotes⟩ := V.makeParent_of_calm hcalm h
    hfile.endsWithName_staged (hfile.staged .fresh) hfits.place?_staged
    (hopen.mono hfits.way_parent_staged)
  have hgrows := hgrows.mono le_rfl hfits.way_parent_staged
  have hfree₁ : (V.tree s₁).get? (d.stagedKey .fresh file) ≠ some .directory := by
    intro hget
    rcases hgrows.adds _ _ (Set.notMem_empty _) hget with hold | ⟨-, hmem⟩
    · exact hfree hold
    · exact Site.stagedKey_notMem_toShelf_self hmem
  obtain ⟨s', hwrite, htree, hcalm'⟩ := V.update_of_calm
    (V.writeFile (d.staged .fresh file) file.contents s₁) hcalm₁
    (Tree.writeFile_of_denotes hdenotes hfree₁ file.contents)
  refine ⟨s', (bind_of_ok hmake).trans hwrite, hcalm', ?_, ?_⟩
  · rw [htree]
    exact hrooted.put hdenotes.ne_nil hdenotes.directory (.inr hfree₁)
  · rw [htree]
    exact (hgrows.mono (Set.empty_subset _) le_rfl).trans (Tree.grows_put hdenotes.ne_nil _)

/-- All files are staged, and only they and the directories for them are new. -/
theorem stage_of_calm (hfiles : ∀ file ∈ files, d.Movable file)
    (hapart : files.Pairwise fun file other =>
      ¬ namesOf file <+: namesOf other ∧ ¬ namesOf other <+: namesOf file)
    (hcalm : V.calm s) (h : (V.tree s).Rooted)
    (hopen : ∀ file ∈ files, (V.tree s).Passable (d.toShelf .fresh file))
    (hfree : ∀ file ∈ files, (V.tree s).get? (d.stagedKey .fresh file) ≠ some .directory) :
    ∃ s', (stage (d.shelfDir .fresh) files : EStateM FileFault σ Unit) s = .ok () s' ∧
      V.calm s' ∧
      Grows {k | ∃ file ∈ files, k = d.stagedKey .fresh file}
        {k | ∃ file ∈ files, k ∈ d.toShelf .fresh file} (V.tree s) (V.tree s') := by
  induction files generalizing s with
  | nil => exact ⟨s, rfl, hcalm, .refl _ _ _⟩
  | cons file files ih =>
    obtain ⟨hfile, hfiles⟩ := List.forall_mem_cons.1 hfiles
    obtain ⟨hothers, hapart⟩ := List.pairwise_cons.1 hapart
    obtain ⟨hopen, hopens⟩ := List.forall_mem_cons.1 hopen
    obtain ⟨hfree, hfrees⟩ := List.forall_mem_cons.1 hfree
    obtain ⟨s₁, hone, hcalm₁, hrooted₁, hgrows⟩ :=
      stage_one_of_calm V hfile hcalm h hopen hfree
    have hopens₁ : ∀ other ∈ files, (V.tree s₁).Passable (d.toShelf .fresh other) := by
      intro other hother
      refine (hopens other hother).grows hgrows ?_
      rintro k hk rfl
      exact Site.stagedKey_notMem_toShelf (hothers other hother).1 hk
    have hfrees₁ : ∀ other ∈ files,
        (V.tree s₁).get? (d.stagedKey .fresh other) ≠ some .directory := by
      intro other hother hget
      have hne : d.stagedKey .fresh other ∉ ({d.stagedKey .fresh file} : Set Key) := by
        intro heq
        have hnames : namesOf other = namesOf file := Site.namesOf_eq_of_stagedKey heq
        exact (hothers other hother).2 (hnames ▸ List.prefix_refl _)
      rcases hgrows.adds _ _ hne hget with hold | ⟨-, hmem⟩
      · exact hfrees other hother hold
      · exact Site.stagedKey_notMem_toShelf (hothers other hother).2 hmem
    obtain ⟨s', hrest, hcalm', hgrows'⟩ := ih hfiles hapart hcalm₁ hrooted₁ hopens₁ hfrees₁
    refine ⟨s', ?_, hcalm', (hgrows.mono ?_ ?_).trans (hgrows'.mono ?_ ?_)⟩
    · rw [stage_cons hfile.apart.fits, bind_of_ok hone]
      exact hrest
    · rintro k rfl
      exact ⟨file, List.mem_cons_self, rfl⟩
    · exact fun k hk => ⟨file, List.mem_cons_self, hk⟩
    · exact fun k ⟨other, hother, hk⟩ => ⟨other, List.mem_cons_of_mem _ hother, hk⟩
    · exact fun k ⟨other, hother, hk⟩ => ⟨other, List.mem_cons_of_mem _ hother, hk⟩

/-! ## Moving in -/

theorem free_of_calm (hfile : d.Movable file) (hcalm : V.calm s) (h : (V.tree s).Rooted)
    (hspare : (V.tree s).get? (d.stagedKey .replaced file) = none)
    (hopen : (V.tree s).Passable (d.around file)) :
    ∃ previous s', (makeDirs (d.target file).parent >>= fun _ =>
        setAside (d.target file) (d.staged .replaced file) : EStateM FileFault σ _) s =
          .ok previous s' ∧
      V.calm s' ∧ (V.tree s').Denotes (d.target file) (d.targetKey file) := by
  have hfits := hfile.apart.fits
  have hway : Path.way [] (d.target file).parent.segments ⊆ d.around file :=
    (hfits.way_parent_target hfile.apart.ne_nil).trans Set.subset_union_left
  have hway' : Path.way [] (d.staged .replaced file).parent.segments ⊆ d.around file :=
    hfits.way_parent_staged.trans Set.subset_union_right
  obtain ⟨s₁, hmake, hcalm₁, hgrows₁, hrooted₁, htarget⟩ := V.makeParent_of_calm hcalm h
    hfile.endsWithName_target hfile.target hfits.place?_target (hopen.mono hway)
  have hgrows₁ := hgrows₁.mono le_rfl hway
  rw [bind_of_ok hmake, setAside, bind_of_ok (V.pathExists (d.target file) s₁)]
  cases hfind : (V.tree s₁).find? (d.target file) with
  | none => exact ⟨none, s₁, rfl, hcalm₁, htarget⟩
  | some entry =>
    have hopen₁ := hopen.grows hgrows₁ fun q _ => Set.notMem_empty q
    obtain ⟨s₂, hmake₂, hcalm₂, hgrows₂, hrooted₂, haside⟩ := V.makeParent_of_calm hcalm₁ hrooted₁
      hfile.endsWithName_staged (hfile.staged .replaced) hfits.place?_staged (hopen₁.mono hway')
    have htarget₂ := htarget.congr fun q _ hget => hgrows₂.keeps q _ (Set.notMem_empty q) hget
    have hsome : (V.tree s₂).get? (d.targetKey file) ≠ none := by
      rw [Tree.find?_of_locate htarget.located] at hfind
      rw [hgrows₂.keeps _ _ (Set.notMem_empty _) hfind]
      exact Option.some_ne_none entry
    have hfree : (V.tree s₂).get? (d.stagedKey .replaced file) = none :=
      (hgrows₁.trans (hgrows₂.mono le_rfl hway')).get?_eq_none (Set.notMem_empty _)
        stagedKey_notMem_around hspare
    have hinto : ¬ d.targetKey file <+: d.stagedKey .replaced file :=
      fun hbegins => hfile.apart.not_isPrefix _ (Path.Base.place_append_mem_under.1 hbegins)
    obtain ⟨t', hrename, hmoved⟩ :=
      Tree.exists_rename hrooted₂ htarget₂ haside hsome hfree hinto
    obtain ⟨s', hrun, htree, hcalm'⟩ := V.update_of_calm
      (V.rename (d.target file) (d.staged .replaced file) s₂) hcalm₂ hrename
    refine ⟨some (d.staged .replaced file), s', ?_, hcalm', ?_⟩
    · rw [Option.isSome_some, if_pos rfl, bind_of_ok hmake₂, bind_of_ok hrun]
      rfl
    · rw [htree]
      refine htarget₂.congr fun q hq hget => ?_
      have haround := hfits.stations_target hfile.endsWithName_target q hq
      obtain ⟨hbelow, hspare, -⟩ := hfile.apart.notMem_of_around haround
      rw [hmoved.others q hbelow hspare]
      exact hget

/-- The files can be moved in one after the other. -/
structure Going (d : Site) (files : List GeneratedFile) (t : Tree) : Prop where
  ready : Ready d files t
  passable : ∀ file ∈ files, t.Passable (d.around file)
  within : ∀ q ∈ d.reach [], t.get? q = some .directory

theorem Going.denotes_staged {t : Tree} (h : Going d (file :: files) t) (hfile : d.Movable file) :
    t.Denotes (d.staged .fresh file) (d.stagedKey .fresh file) := by
  have hfits := hfile.apart.fits
  have hstaged := h.ready.staged file List.mem_cons_self
  refine ⟨hfile.endsWithName_staged, Tree.locate_eq_ok_iff.2
    ⟨hfile.staged .fresh, hfits.place?_staged, fun q hq => ?_⟩⟩
  rcases hfits.stations_staged hfile.endsWithName_staged q hq with hq | ⟨y, rfl, z, hz⟩
  · exact h.within q (.inl hq)
  · have hne : d.name :: Shelf.fresh.name :: namesOf file ≠ [] := List.cons_ne_nil _ _
    rw [Site.stagedKey, ← List.dropLast_append_getLast hne, ← hz, List.append_assoc,
      ← List.append_assoc] at hstaged
    exact h.ready.rooted.directory_of_append (by simp) hstaged

theorem turn_of_calm (hfile : d.Movable file) (hcalm : V.calm s)
    (h : Going d (file :: files) (V.tree s)) :
    ∃ previous s₁ s₂, (makeDirs (d.target file).parent >>= fun _ =>
        setAside (d.target file) (d.staged .replaced file) : EStateM FileFault σ _) s =
          .ok previous s₁ ∧
      (rename (d.staged .fresh file) (d.target file) : EStateM FileFault σ _) s₁ = .ok () s₂ ∧
      V.calm s₂ ∧ Turned d file (V.tree s) previous (V.tree s₁) (V.tree s₂) := by
  have hfits := hfile.apart.fits
  have hne := hfile.apart.ne_nil
  have hspare := h.ready.spare file List.mem_cons_self
  have hstaged := h.ready.staged file List.mem_cons_self
  obtain ⟨previous, s₁, hfree, hcalm₁, htarget⟩ :=
    free_of_calm V hfile hcalm h.ready.rooted hspare (h.passable file List.mem_cons_self)
  have hfreed : Freed d file (V.tree s) previous (V.tree s₁) := by
    rcases free_cases V hfits hne h.ready.rooted (.inl hspare) with
      ⟨previous', s₁', hrun, hfreed⟩ | ⟨e, s₁', hrun, -⟩
    · cases hfree.symm.trans hrun
      exact hfreed
    · cases hfree.symm.trans hrun
  have hkept : ∀ q ∈ d.reach (d.name :: Shelf.fresh.name :: namesOf file), ∀ e,
      (V.tree s).get? q = some e → (V.tree s₁).get? q = some e :=
    fun q hq e hget => hfreed.grows.keeps q e (hfile.apart.notMem_of_reach hq) hget
  have hsource : (V.tree s₁).Denotes (d.staged .fresh file) (d.stagedKey .fresh file) :=
    (h.denotes_staged hfile).congr fun q hq hget => hkept q (Path.Base.reach_mono
      (List.dropLast_prefix _) (hfits.stations_staged hfile.endsWithName_staged q hq)) _ hget
  have hsome : (V.tree s₁).get? (d.stagedKey .fresh file) ≠ none := by
    rw [hkept (d.stagedKey .fresh file) (.inr ⟨_, rfl, List.prefix_refl _⟩) _ hstaged]
    exact Option.some_ne_none _
  have hgone := hfreed.get?_of_locate hfits htarget.located
  have hinto : ¬ d.stagedKey .fresh file <+: d.targetKey file :=
    fun hbegins => hfile.apart.not_isPrefix_names _ (Path.Base.place_append_mem_under.1 hbegins)
  obtain ⟨t', hrename, -⟩ :=
    Tree.exists_rename hfreed.rooted hsource htarget hsome hgone hinto
  obtain ⟨s₂, hrun, htree, hcalm₂⟩ := V.update_of_calm
    (V.rename (d.staged .fresh file) (d.target file) s₁) hcalm₁ hrename
  refine ⟨previous, s₁, s₂, hfree, hrun, hcalm₂, ?_⟩
  rw [htree]
  exact turned_of_rename hfits hne hstaged hfreed hrename

theorem Going.tail {t t₁ t' : Tree} {previous : Option Path} (hfiles : Assorted d (file :: files))
    (hapart : ∀ other ∈ files, d.Apart other) (h : Going d (file :: files) t)
    (hturned : Turned d file t previous t₁ t') : Going d files t' where
  ready := h.ready.tail hfiles hturned
  passable other hother := by
    have hnot := ((List.pairwise_cons.1 hfiles.apart).1 other hother).1
    refine (h.passable other (List.mem_cons_of_mem _ hother)).grows hturned.grows fun k hk => ?_
    exact hturned.apart.around_notMem_touched (hapart other hother) hnot hk
  within q hq := hturned.grows.keeps q _ (hturned.apart.notMem_touched_of_reach hq) (h.within q hq)

theorem install_of_calm {dir : Path} (hdir : d.segments = Path.dropSlash dir.segments)
    (hassorted : Assorted d files) (hfiles : ∀ file ∈ files, d.Movable file) (hcalm : V.calm s)
    (h : Going d files (V.tree s)) (moves : List Move) :
    ∃ made s', (install dir (d.shelfDir .fresh) (d.shelfDir .replaced) moves files :
        EStateM FileFault σ _) s = .ok (made, .ok ()) s' ∧ V.calm s' := by
  induction files generalizing s moves with
  | nil => exact ⟨moves, s, rfl, hcalm⟩
  | cons file files ih =>
    obtain ⟨hfile, hrest⟩ := List.forall_mem_cons.1 hfiles
    have hfits := hfile.apart.fits
    obtain ⟨previous, s₁, s₂, hfree, hrename, hcalm₂, hturned⟩ := turn_of_calm V hfile hcalm h
    have hgoing := h.tail hassorted (fun other hother => (hrest other hother).apart) hturned
    rw [install, hfits.placeIn_dir hdir, hfits.placeIn_shelf, hfits.placeIn_shelf,
      bind_of_ok (attempt_of_ok hfree)]
    dsimp only
    rw [bind_of_ok (attempt_of_ok hrename)]
    exact ih hassorted.tail hrest hcalm₂ hgoing _

/-! ## Staging and moving in -/

theorem passable_of_free {t : Tree} (h : t.Rooted) (hfree : t.get? (d.place ++ [d.name]) = none)
    (hwithin : ∀ q ∈ d.reach [], t.get? q = some .directory) (c : List String) :
    t.Passable (d.reach (d.name :: c)) := by
  rintro k (hk | ⟨y, rfl, hy⟩) contents hget
  · cases hget.symm.trans (hwithin k (.inl hk))
  · cases y with
    | nil => cases hget.symm.trans (hwithin _ (.inr ⟨[], rfl, List.nil_prefix⟩))
    | cons name y =>
      rw [(List.cons_prefix_cons.1 hy).1, List.append_cons] at hget
      cases hget.symm.trans (h.get?_append_of_none hfree y)

theorem stage_install_of_calm {dir : Path} (hdir : d.segments = Path.dropSlash dir.segments)
    (hassorted : Assorted d files) (hnodup : (files.map namesOf).Nodup)
    (hfiles : ∀ file ∈ files, d.Movable file) (hcalm : V.calm s) (h : (V.tree s).Rooted)
    (hfree : (V.tree s).get? (d.place ++ [d.name]) = none)
    (hwithin : ∀ q ∈ d.reach [], (V.tree s).get? q = some .directory)
    (habove : ∀ file ∈ files, (V.tree s).Passable (d.reach (namesOf file).dropLast)) :
    ∃ s₁ made s', (stage (d.shelfDir .fresh) files : EStateM FileFault σ Unit) s = .ok () s₁ ∧
      (install dir (d.shelfDir .fresh) (d.shelfDir .replaced) [] files : EStateM FileFault σ _) s₁ =
        .ok (made, .ok ()) s' ∧ V.calm s' ∧
      Grows {k | ∃ file ∈ files, k = d.stagedKey .fresh file}
        {k | ∃ file ∈ files, k ∈ d.toShelf .fresh file} (V.tree s) (V.tree s₁) ∧
      Staged d files (V.tree s) (V.tree s₁) ∧ Installed d files (V.tree s₁) (V.tree s') := by
  have hshelf : ∀ shelf, ∀ file ∈ files, (V.tree s).Passable (d.toShelf shelf file) :=
    fun shelf file _ => (passable_of_free h hfree hwithin _).mono
      (Path.Base.reach_mono (List.dropLast_prefix _))
  have hnone : ∀ file ∈ files, (V.tree s).get? (d.stagedKey .fresh file) ≠ some .directory := by
    intro file _ hget
    rw [Site.stagedKey, List.append_cons] at hget
    cases hget.symm.trans (h.get?_append_of_none hfree _)
  obtain ⟨s₁, hstage, hcalm₁, hgrows⟩ :=
    stage_of_calm V hfiles hassorted.apart hcalm h (hshelf .fresh) hnone
  have hstaged : Staged d files (V.tree s) (V.tree s₁) := by
    rcases stage_cases V hassorted.fits hnodup h with ⟨s₁', hrun, hstaged⟩ | ⟨e, s₁', hrun, -⟩
    · cases hstage.symm.trans hrun
      exact hstaged
    · cases hstage.symm.trans hrun
  have hfresh : ∀ k, (∃ file ∈ files, k = d.stagedKey .fresh file) → k ∈ d.fresh := by
    rintro _ ⟨file, -, rfl⟩
    exact Site.stagedKey_mem_iff.2 List.nil_prefix
  have hgoing : Going d files (V.tree s₁) := by
    refine ⟨hstaged.ready h fun _ => hfree, fun file hfile => ?_, fun q hq => ?_⟩
    · have hpassable : (V.tree s).Passable (d.around file) := by
        rintro k (hk | hk)
        · exact habove file hfile k hk
        · exact hshelf .replaced file hfile k hk
      exact hpassable.grows hgrows fun k hk hmem =>
        ((hfiles file hfile).apart.notMem_of_around hk).2.2 (hfresh k hmem)
    · refine hgrows.keeps q _ (fun hmem => ?_) (hwithin q hq)
      exact Site.notMem_of_clear (by simp) hq (hfresh q hmem)
  obtain ⟨made, s', hinstall, hcalm'⟩ := install_of_calm V hdir hassorted hfiles hcalm₁ hgoing []
  refine ⟨s₁, made, s', hstage, hinstall, hcalm', hgrows, hstaged, ?_⟩
  rcases install_cases V hdir hassorted hgoing.ready [] with
    ⟨made', s₂, hrun, hinstalled⟩ | ⟨made', e, s₂, s₃, hrun, -, -⟩
  · cases hinstall.symm.trans hrun
    exact hinstalled
  · cases hinstall.symm.trans hrun

/-- The staging directory is still there when the files are moved in. -/
theorem Installed.get?_staging {t t₁ t' : Tree} (h : Installed d files t₁ t')
    (hstaged : Staged d files t t₁) (hfile : file ∈ files) :
    t'.get? (d.place ++ [d.name]) = some .directory := by
  have hwritten := hstaged.written file hfile
  rw [Site.stagedKey, List.append_cons] at hwritten
  refine h.grows.keeps _ _ ?_ (hstaged.rooted.directory_of_append (List.cons_ne_nil _ _) hwritten)
  rintro ⟨other, hother, hmem | hmem | hmem⟩
  · have hlength := (Path.Base.place_append_mem_under.1 hmem).length_le
    simp at hlength
  · exact (h.apart other hother).not_isPrefix _ (Path.Base.place_append_mem_under.1 hmem)
  · have hlength := (Path.Base.place_append_mem_under.1 hmem).length_le
    simp at hlength

/-! ## Writing -/

/-- Files that do not get in each other's way, nor in that of the staging directory. -/
structure SideBySide (tag : String) (files : List GeneratedFile) : Prop
    extends WellPlaced tag files where
  named : ∀ file ∈ files, Path.endsWithName ⟨segmentsOf file⟩ = true
  away : ∀ file ∈ files, namesOf file ≠ [stagingName tag]
  apart : files.Pairwise fun file other =>
    ¬ namesOf file <+: namesOf other ∧ ¬ namesOf other <+: namesOf file

structure InLimits (tag : String) (dir : Path) (files : List GeneratedFile) : Prop where
  directory : dir.Allowed
  targets : ∀ file ∈ files, (placeIn dir file).Allowed
  staged : ∀ file ∈ files, ∀ shelf : Shelf,
    (placeIn ((stagingDir tag dir).join (.ofText shelf.name)) file).Allowed

/-- No file is where there have to be directories. -/
structure HasRoom (tag : String) (dir : Path) (place : Key) (files : List GeneratedFile)
    (t : Tree) : Prop where
  way : t.Passable (Path.way [] dir.segments)
  inside : Path.EndsInside dir.segments → t.get? place = some .directory
  staging : t.Passable {place ++ [stagingName tag]}
  above : ∀ file ∈ files, t.Passable {k | ∃ c, k = place ++ c ∧ c <+: (namesOf file).dropLast}

variable {tag : String} {dir : Path} {place : Key}

/-- The directory is there, and no staging directory is. -/
theorem prepare_of_calm (hplain : '/' ∉ tag.toList) (hplace : dir.place? = some place)
    (hallowed : dir.Allowed) (hstaging : (stagingDir tag dir).Allowed) (hcalm : V.calm s)
    (h : (V.tree s).Rooted) (hroom : HasRoom tag dir place files (V.tree s)) :
    ∃ s', (prepare dir (stagingDir tag dir) : EStateM FileFault σ Unit) s = .ok () s' ∧
      V.calm s' ∧ (V.tree s').Rooted ∧
      Grows {k | place ++ [stagingName tag] <+: k} (Path.way [] dir.segments)
        (V.tree s) (V.tree s') ∧
      (∀ q ∈ Path.way [] dir.segments, ¬ place ++ [stagingName tag] <+: q →
        (V.tree s').get? q = some .directory) ∧
      (V.tree s').get? (place ++ [stagingName tag]) = none := by
  have hne : place ++ [stagingName tag] ≠ [] := by simp
  obtain ⟨s₁, hmake, hcalm₁, hgrows, hrooted₁, hopen⟩ :=
    V.makeDirs_of_calm hcalm h hallowed hplace hroom.way hroom.inside
  have hlocated : (V.tree s₁).locate (stagingDir tag dir) = .ok (place ++ [stagingName tag]) :=
    Tree.locate_eq_ok_iff.2 ⟨hstaging, place?_stagingDir hplain hplace,
      fun q hq => hopen q (way_dropSlash_subset (stations_stagingDir hplain hplace q hq))⟩
  have hstale := hroom.staging.grows hgrows (fun q _ => Set.notMem_empty q) _ rfl
  have hgrows := hgrows.mono (Set.empty_subset {k | place ++ [stagingName tag] <+: k}) le_rfl
  unfold prepare
  rw [bind_of_ok hmake, bind_of_ok (V.pathExists (stagingDir tag dir) s₁),
    Tree.find?_of_locate hlocated]
  cases hget : (V.tree s₁).get? (place ++ [stagingName tag]) with
  | none => exact ⟨s₁, rfl, hcalm₁, hrooted₁, hgrows, fun q hq _ => hopen q hq, hget⟩
  | some entry =>
    rw [Option.isSome_some, if_pos rfl]
    cases entry with
    | file contents => exact absurd hget (hstale contents)
    | directory =>
      obtain ⟨s', hrun, htree, hcalm'⟩ := V.update_of_calm
        (V.removeDirAll (stagingDir tag dir) s₁) hcalm₁
        (Tree.removeDirAll_of_directory hlocated hget)
      refine ⟨s', hrun, hcalm', ?_, ?_, fun q hq hout => ?_, ?_⟩
      · rw [htree]
        exact hrooted₁.eraseAll hne
      · rw [htree]
        exact hgrows.trans (Tree.grows_eraseAll hne)
      · rw [htree, Tree.get?_eraseAll hne, if_neg hout]
        exact hopen q hq
      · rw [htree, Tree.get?_eraseAll hne, if_pos (List.prefix_refl _)]

section
variable (hclear : PassesBy tag dir files) (hplace : dir.place? = some place)

theorem movable_site (hfiles : SideBySide tag files) (hlimits : InLimits tag dir files)
    (hfile : file ∈ files) : (site hclear hplace).Movable file := by
  have hfits := fits_site hclear hplace hfiles.toWellPlaced hfile
  have hne : namesOf file ≠ [] := Path.names_ne_nil_of_endsWithName (hfiles.named file hfile)
  refine ⟨hfits.apart hne (hfiles.away file hfile), hfiles.named file hfile, ?_, fun shelf => ?_⟩
  · have htarget := hlimits.targets file hfile
    rwa [hfits.placeIn_dir rfl] at htarget
  · have hstaged := hlimits.staged file hfile shelf
    rwa [join_stagingDir hclear hplace hfiles.plain, hfits.placeIn_shelf] at hstaged

theorem allowed_stagingDir (hclear : PassesBy tag dir files) (hplace : dir.place? = some place)
    (hfiles : SideBySide tag files) (hlimits : InLimits tag dir files) (hfile : file ∈ files) :
    (stagingDir tag dir).Allowed := by
  rw [stagingDir_eq hfiles.plain]
  exact Site.allowed_of_staged ((movable_site hclear hplace hfiles hlimits hfile).staged .fresh)

theorem assorted_site (hfiles : SideBySide tag files) (hlimits : InLimits tag dir files) :
    Assorted (site hclear hplace) files where
  fits _ hfile := (movable_site hclear hplace hfiles hlimits hfile).apart.fits
  ne_nil _ hfile := (movable_site hclear hplace hfiles hlimits hfile).apart.ne_nil
  apart := hfiles.apart

theorem reach_site_eq :
    (site hclear hplace).reach [] = Path.way [] (Path.dropSlash dir.segments) := by
  have hleads := (site hclear hplace).leads
  refine Set.Subset.antisymm ?_ ?_
  · rintro q (hq | ⟨y, rfl, hy⟩)
    · exact .inl hq
    · rw [List.prefix_nil.1 hy, List.append_nil]
      exact .inr hleads
  · rintro q (hq | hq)
    · exact .inl hq
    · cases hleads.symm.trans hq
      exact .inr ⟨[], (List.append_nil _).symm, List.nil_prefix⟩

theorem reach_site : (site hclear hplace).reach [] ⊆ Path.way [] dir.segments :=
  (reach_site_eq hclear hplace).subset.trans way_dropSlash_subset

/-- At or below the staging directory or a target. -/
def outputs (tag : String) (place : Key) (files : List GeneratedFile) : Set Key :=
  {k | place ++ [stagingName tag] <+: k ∨ ∃ file ∈ files, place ++ namesOf file <+: k}

/-- The directories on the way to the project and to its files. -/
def parents (dir : Path) (place : Key) (files : List GeneratedFile) : Set Key :=
  {k | k ∈ Path.way [] dir.segments ∨
    ∃ file ∈ files, ∃ c, k = place ++ c ∧ c <+: (namesOf file).dropLast}

theorem mem_parents_of_reach {k : Key} {c : List String}
    (hk : k ∈ (site hclear hplace).reach (stagingName tag :: c))
    (hout : k ∉ outputs tag place files) : k ∈ parents dir place files := by
  rcases hk with hk | ⟨y, rfl, hy⟩
  · exact .inl (reach_site hclear hplace (.inl hk))
  · cases y with
    | nil => exact .inl (reach_site hclear hplace (.inr ⟨[], rfl, List.nil_prefix⟩))
    | cons name y =>
      rw [(List.cons_prefix_cons.1 hy).1] at hout
      exact absurd (.inl ⟨y, (List.append_cons ..).symm⟩) hout

theorem touched_subset_outputs (hfile : file ∈ files) :
    (site hclear hplace).touched file ⊆ outputs tag place files := by
  have hstaging : ∀ c, (site hclear hplace).under (stagingName tag :: c) ⊆
      outputs tag place files :=
    fun c k hk => .inl (Path.Base.under_subset (List.prefix_append [stagingName tag] c) hk)
  rintro k (hk | hk | hk)
  · exact hstaging _ hk
  · exact .inr ⟨file, hfile, hk⟩
  · exact hstaging _ hk

theorem mem_parents_of_around (hfile : file ∈ files) {k : Key}
    (hk : k ∈ (site hclear hplace).around file) (hout : k ∉ outputs tag place files) :
    k ∈ parents dir place files := by
  rcases hk with (hk | ⟨c, hc⟩) | hk
  · exact .inl (reach_site hclear hplace (.inl hk))
  · exact .inr ⟨file, hfile, c, hc⟩
  · exact mem_parents_of_reach hclear hplace
      (Path.Base.reach_mono (List.dropLast_prefix _) hk) hout

/-- The staging directory is not on the way to a target. -/
theorem not_isPrefix_of_reach (hfiles : SideBySide tag files) (hlimits : InLimits tag dir files)
    (hfile : file ∈ files) {k : Key} (hk : k ∈ (site hclear hplace).reach (namesOf file)) :
    ¬ place ++ [stagingName tag] <+: k :=
  Site.notMem_of_clear (movable_site hclear hplace hfiles hlimits hfile).apart.outside hk

/-- There is still room for a target when the directory has been prepared. -/
theorem HasRoom.passable {t t' : Tree} {P : Set Key} (hroom : HasRoom tag dir place files t)
    (hfiles : SideBySide tag files) (hlimits : InLimits tag dir files) (hfile : file ∈ files)
    (hgrows : Grows {k | place ++ [stagingName tag] <+: k} P t t') :
    t'.Passable ((site hclear hplace).reach (namesOf file).dropLast) := by
  have hpassable : t.Passable ((site hclear hplace).reach (namesOf file).dropLast) := by
    rintro k (hk | hk)
    · exact hroom.way k (reach_site hclear hplace (.inl hk))
    · exact hroom.above file hfile k hk
  exact hpassable.grows hgrows fun k hk => not_isPrefix_of_reach hclear hplace hfiles hlimits hfile
    (Path.Base.reach_mono (List.dropLast_prefix _) hk)

/-- A file in place is still found when the staging directory has been removed. -/
theorem find?_placeIn_of_grows {t t' : Tree} {P : Set Key} {e : Entry}
    (hclear : PassesBy tag dir files) (hplace : dir.place? = some place)
    (hfiles : SideBySide tag files) (hlimits : InLimits tag dir files) (hfile : file ∈ files)
    (hgrows : Grows {k | place ++ [stagingName tag] <+: k} P t t')
    (hfind : t.find? (placeIn dir file) = some e) : t'.find? (placeIn dir file) = some e := by
  have hmovable := movable_site hclear hplace hfiles hlimits hfile
  have hfits := hmovable.apart.fits
  rw [hfits.placeIn_dir rfl] at hfind ⊢
  refine hgrows.find? hfind hfits.place?_target ?_ fun q hq => ?_
  · exact not_isPrefix_of_reach hclear hplace hfiles hlimits hfile
      (.inr ⟨_, rfl, List.prefix_refl _⟩)
  · have hreach := Path.Base.stations_subset hfits.downward (Path.segments_ofText_ne_nil _)
      hmovable.endsWithName_target q hq
    exact not_isPrefix_of_reach hclear hplace hfiles hlimits hfile
      (Path.Base.reach_mono (List.dropLast_prefix _) hreach)

theorem stageAndInstall_of_calm (hfiles : SideBySide tag files)
    (hlimits : InLimits tag dir files) (hfile : file ∈ files) (hcalm : V.calm s)
    (h : (V.tree s).Rooted) (hfree : (V.tree s).get? (place ++ [stagingName tag]) = none)
    (hwithin : ∀ q ∈ (site hclear hplace).reach [], (V.tree s).get? q = some .directory)
    (habove : ∀ file ∈ files,
      (V.tree s).Passable ((site hclear hplace).reach (namesOf file).dropLast)) :
    ∃ s', (stageAndInstall dir (stagingDir tag dir) files : EStateM FileFault σ Unit) s =
        .ok () s' ∧
      V.calm s' ∧ (V.tree s').Rooted ∧
      (∀ file ∈ files, (V.tree s').find? (placeIn dir file) = some (.file file.contents)) ∧
      Grows (outputs tag place files) (parents dir place files) (V.tree s) (V.tree s') ∧
      (V.tree s').locate (stagingDir tag dir) = .ok (place ++ [stagingName tag]) ∧
      (V.tree s').get? (place ++ [stagingName tag]) = some .directory := by
  have hmovable : ∀ file ∈ files, (site hclear hplace).Movable file :=
    fun file hfile => movable_site hclear hplace hfiles hlimits hfile
  obtain ⟨s₁, made, s', hstage, hinstall, hcalm', hgrows, hstaged, hinstalled⟩ :=
    stage_install_of_calm V rfl (assorted_site hclear hplace hfiles hlimits) hfiles.distinct
      hmovable hcalm h hfree hwithin habove
  have hwithin₁ : ∀ q ∈ (site hclear hplace).reach [], (V.tree s₁).get? q = some .directory := by
    intro q hq
    refine hgrows.keeps q _ ?_ (hwithin q hq)
    rintro ⟨file, -, rfl⟩
    exact Site.notMem_of_clear (by simp) hq (Site.stagedKey_mem_iff.2 List.nil_prefix)
  have hgrows₁ : Grows (outputs tag place files) (parents dir place files) (V.tree s)
      (V.tree s₁) := by
    refine hgrows.mono_outside ?_ ?_
    · rintro k ⟨file, hfile, rfl⟩
      exact .inl ((List.prefix_append_right_inj _).2 (List.prefix_append [_] _))
    · rintro k ⟨file, -, hk⟩ hout
      exact mem_parents_of_reach hclear hplace
        (Path.Base.reach_mono (List.dropLast_prefix _) hk) hout
  have hgrows₂ : Grows (outputs tag place files) (parents dir place files) (V.tree s₁)
      (V.tree s') := by
    refine hinstalled.grows.mono_outside ?_ ?_
    · rintro k ⟨file, hfile, hk⟩
      exact touched_subset_outputs hclear hplace hfile hk
    · rintro k ⟨file, hfile, hk⟩ hout
      exact mem_parents_of_around hclear hplace hfile hk hout
  refine ⟨s', ?_, hcalm', hinstalled.rooted, fun file hfile => ?_, hgrows₁.trans hgrows₂, ?_,
    hinstalled.get?_staging hstaged hfile⟩
  · have hfresh : (stagingDir tag dir).join (.ofText "new") =
        (site hclear hplace).shelfDir .fresh := join_stagingDir hclear hplace hfiles.plain .fresh
    have hreplaced : (stagingDir tag dir).join (.ofText "old") =
        (site hclear hplace).shelfDir .replaced :=
      join_stagingDir hclear hplace hfiles.plain .replaced
    unfold stageAndInstall
    rw [hfresh, hreplaced, bind_of_ok hstage, bind_of_ok hinstall]
    rfl
  · rw [(hmovable file hfile).apart.fits.placeIn_dir rfl]
    exact hinstalled.placed file hfile
  · refine Tree.locate_eq_ok_iff.2 ⟨allowed_stagingDir hclear hplace hfiles hlimits hfile,
      place?_stagingDir hfiles.plain hplace, fun q hq => ?_⟩
    have hq : q ∈ (site hclear hplace).reach [] :=
      (reach_site_eq hclear hplace).superset (stations_stagingDir hfiles.plain hplace q hq)
    refine hinstalled.grows.keeps q _ ?_ (hwithin₁ q hq)
    rintro ⟨file, hfile, hmem⟩
    exact (hinstalled.apart file hfile).notMem_touched_of_reach hq hmem

end

/-- A project that there is room for is written: every file is in place, all else is as it was but
for directories on the way to them, and no staging directory is left. -/
theorem write_of_calm (hcalm : V.calm s) (h : (V.tree s).Rooted) (hne : files ≠ [])
    (hfiles : SideBySide tag files) (hplace : dir.place? = some place)
    (hclear : PassesBy tag dir files) (hlimits : InLimits tag dir files)
    (hroom : HasRoom tag dir place files (V.tree s)) :
    ∃ s', (write tag dir files : EStateM FileFault σ _) s = .ok (files.map (placeIn dir)) s' ∧
      (V.tree s').Rooted ∧
      (∀ file ∈ files, (V.tree s').find? (placeIn dir file) = some (.file file.contents)) ∧
      Grows (outputs tag place files) (parents dir place files) (V.tree s) (V.tree s') ∧
      ∀ k, place ++ [stagingName tag] <+: k → (V.tree s').get? k = none := by
  have hplain := hfiles.plain
  have hstagingKey : place ++ [stagingName tag] ≠ [] := by simp
  obtain ⟨file, hfile⟩ := List.exists_mem_of_ne_nil files hne
  have hstaging := allowed_stagingDir hclear hplace hfiles hlimits hfile
  obtain ⟨s₁, hprepare, hcalm₁, hrooted₁, hgrows₁, hopen, hfree⟩ :=
    prepare_of_calm V hplain hplace hlimits.directory hstaging hcalm h hroom
  have hwithin : ∀ q ∈ (site hclear hplace).reach [], (V.tree s₁).get? q = some .directory :=
    fun q hq => hopen q (reach_site hclear hplace hq) (Site.notMem_of_clear (by simp) hq)
  obtain ⟨s₂, hrun, hcalm₂, hrooted₂, hplaced, hgrows₂, hlocated, hdirectory⟩ :=
    stageAndInstall_of_calm V hclear hplace hfiles hlimits hfile hcalm₁ hrooted₁ hfree hwithin
      fun file hfile => hroom.passable hclear hplace hfiles hlimits hfile hgrows₁
  obtain ⟨s', hremove, htree, -⟩ := V.update_of_calm (V.removeDirAll (stagingDir tag dir) s₂) hcalm₂
    (Tree.removeDirAll_of_directory hlocated hdirectory)
  have hgrows₃ : Grows {k | place ++ [stagingName tag] <+: k} ∅ (V.tree s₂) (V.tree s') := by
    rw [htree]
    exact Tree.grows_eraseAll hstagingKey
  refine ⟨s', ?_, ?_, fun file hfile => ?_, ?_, fun k hk => ?_⟩
  · unfold write
    rw [bind_of_ok hprepare, bind_of_ok (attempt_of_ok hrun), bind_of_ok (attempt_of_ok hremove)]
    rfl
  · rw [htree]
    exact hrooted₂.eraseAll hstagingKey
  · exact find?_placeIn_of_grows hclear hplace hfiles hlimits hfile hgrows₃ (hplaced file hfile)
  · have hstale : {k | place ++ [stagingName tag] <+: k} ⊆ outputs tag place files :=
      fun k hk => .inl hk
    exact ((hgrows₁.mono hstale fun k hk => .inl hk).trans hgrows₂).trans
      (hgrows₃.mono hstale (Set.empty_subset _))
  · rw [htree, Tree.get?_eraseAll hstagingKey, if_pos hk]

/-! ## A staging directory left over -/

def mixedFiles : List GeneratedFile :=
  [⟨"a", "1"⟩, ⟨"b", "2"⟩, ⟨"sub/c", "3"⟩]

/-- There is a file for the first target, a directory for the second, and nothing for the third. -/
def leftoverTree : Tree :=
  ⟨[(["out"], .directory), (["out", "a"], .file "old"), (["out", "b"], .directory),
    (["out", "b", "x"], .file "old"), (["out", "keep"], .file "old"),
    (["out", ".bwire-staging-7"], .directory),
    (["out", ".bwire-staging-7", "junk"], .file "old")]⟩

theorem sideBySide_mixedFiles : SideBySide "7" mixedFiles :=
  ⟨⟨by decide, by decide, by decide, by decide, by decide⟩, by decide, by decide, by decide⟩

theorem inLimits_mixedFiles : InLimits "7" ⟨["out"]⟩ mixedFiles := by
  refine ⟨by decide, by decide, fun file hfile shelf => ?_⟩
  revert file
  cases shelf with
  | fresh => decide
  | replaced => decide

theorem passable_parents_mixedFiles {t : Tree}
    (h : ∀ k ∈ [[], ["out"], ["out", "sub"]], t.get? k ∈ [none, some .directory]) :
    t.Passable (parents ⟨["out"]⟩ ["out"] mixedFiles) := by
  intro k hk contents hget
  have hmem : k ∈ [[], ["out"], ["out", "sub"]] := by
    have habove : ∀ file ∈ mixedFiles, ∀ c ∈ (namesOf file).dropLast.inits,
        ["out"] ++ c ∈ [[], ["out"], ["out", "sub"]] := by decide
    rcases hk with (hk | hk) | ⟨file, hfile, c, rfl, hc⟩
    · cases List.mem_singleton.1 hk
      decide
    · cases hk
      decide
    · exact habove file hfile c ((List.mem_inits _ _).2 hc)
  have hfile := h k hmem
  rw [hget] at hfile
  simp at hfile

theorem hasRoom_leftoverTree : HasRoom "7" ⟨["out"]⟩ ["out"] mixedFiles leftoverTree := by
  have hparents := passable_parents_mixedFiles (t := leftoverTree) (by decide)
  refine ⟨hparents.mono fun _ hk => .inl hk, fun _ => rfl, ?_,
    fun file hfile => hparents.mono fun _ hk => .inr ⟨file, hfile, hk⟩⟩
  rintro _ rfl contents hget
  cases hget

theorem write_of_calm_leftover :
    ∃ s', (write "7" ⟨["out"]⟩ mixedFiles : EStateM FileFault FaultyTree _) ⟨leftoverTree, none⟩ =
        .ok [⟨["out", "a"]⟩, ⟨["out", "b"]⟩, ⟨["out", "sub", "c"]⟩] s' ∧
      s'.tree.find? ⟨["out", "b"]⟩ = some (.file "2") ∧
      s'.tree.find? ⟨["out", "sub", "c"]⟩ = some (.file "3") ∧
      s'.tree.get? ["out", "b", "x"] = none ∧
      s'.tree.get? ["out", "keep"] = some (.file "old") ∧
      s'.tree.get? ["out", ".bwire-staging-7", "junk"] = none := by
  have hrooted : (FaultyTree.treeSystem.tree ⟨leftoverTree, none⟩).Rooted :=
    Tree.rooted_of_entries (t := leftoverTree) (by decide)
  obtain ⟨s', hrun, hrooted', hplaced, hgrows, hgone⟩ :=
    write_of_calm FaultyTree.treeSystem (s := ⟨leftoverTree, none⟩) rfl hrooted (by decide)
      sideBySide_mixedFiles rfl (passesBy_of_downward (by decide)) inLimits_mixedFiles
      hasRoom_leftoverTree
  have hb : s'.tree.find? ⟨["out", "b"]⟩ = some (.file "2") := hplaced ⟨"b", "2"⟩ (by decide)
  have hkeep : ["out", "keep"] ∉ outputs "7" ["out"] mixedFiles := by
    have hother : ∀ file ∈ mixedFiles, ¬ ["out"] ++ namesOf file <+: ["out", "keep"] := by decide
    rintro (hmem | ⟨file, hfile, hmem⟩)
    · exact absurd hmem (by decide)
    · exact hother file hfile hmem
  refine ⟨s', hrun, hb, hplaced ⟨"sub/c", "3"⟩ (by decide), ?_, hgrows.keeps _ _ hkeep rfl,
    hgone _ (by decide)⟩
  exact hrooted'.get?_append_of_file (Tree.get?_of_find? hb rfl) (List.cons_ne_nil "x" [])

def blockedTree : Tree :=
  ⟨[(["out"], .directory), (["out", ".bwire-staging-7"], .file "junk")]⟩

/-- A file where the staging directory is to be is not removed, and nothing is written. -/
theorem exists_write_blocked :
    ∃ (t : Tree) (dir : Path) (place : Key) (files : List GeneratedFile),
      t.Rooted ∧ files ≠ [] ∧ SideBySide "7" files ∧ dir.place? = some place ∧
      PassesBy "7" dir files ∧ InLimits "7" dir files ∧ t.Passable (parents dir place files) ∧
      t.get? place = some .directory ∧
      (write "7" dir files : EStateM FileFault Tree _) t = .error .notADirectory t := by
  exact ⟨blockedTree, ⟨["out"]⟩, ["out"], mixedFiles, Tree.rooted_of_entries (by decide),
    by decide, sideBySide_mixedFiles, rfl, passesBy_of_downward (by decide), inLimits_mixedFiles,
    passable_parents_mixedFiles (by decide), rfl, rfl⟩

end WireCodec.Project
