import WireCodec.Proofs.Restoring

/-!
# Files for one place

A project in which several files have one place is never written: when the second of them is to be
moved, it is not staged any more.  All moves are then taken back.  This restores what was there
unless it was a file: the first of the two, by then in place, is set aside over it.

* `exists_first_repeated`       where a list first repeats itself;
* `install_of_repeated`         the moves stop at the second file for a place and can be taken back;
* `unchanged_of_write_repeated` the project is refused, and all files are as they were;
* `exists_write_repeated_lost`  a file at a place of several files is lost.
-/

namespace WireCodec.Project

open FileSystem
open WireCodec.Tree (Grows)

theorem exists_first_repeated {α β : Type} {f : α → β} {xs : List α} (h : ¬ (xs.map f).Nodup) :
    ∃ front x back, xs = front ++ x :: back ∧ (front.map f).Nodup ∧ f x ∈ front.map f := by
  induction xs using List.reverseRecOn with
  | nil => exact absurd List.nodup_nil h
  | append_singleton xs x ih =>
    by_cases hnodup : (xs.map f).Nodup
    · refine ⟨xs, x, [], rfl, hnodup, ?_⟩
      by_contra hnew
      refine h ?_
      rw [List.map_append, List.map_singleton, List.nodup_append]
      refine ⟨hnodup, by simp, fun y hy z hz heq => hnew ?_⟩
      rwa [← List.mem_singleton.1 hz, ← heq]
    · obtain ⟨front, y, back, rfl, hfront, hy⟩ := ih hnodup
      exact ⟨front, y, back ++ [x], by simp, hfront, hy⟩

theorem map_namesOf_settled (files : List GeneratedFile) :
    (settled files).map namesOf = files.map namesOf :=
  List.map_map

theorem install_settled {m : Type → Type} [Monad m] [MonadExceptOf FileFault m] [FileSystem m]
    (dir fresh replaced : Path) (moves : List Move) (files : List GeneratedFile) :
    (install dir fresh replaced moves (settled files) : m _) =
      install dir fresh replaced moves files := by
  induction files generalizing moves with
  | nil => rfl
  | cons file files ih =>
    rw [settled_cons]
    simp only [install, ih]
    rfl

variable {d : Site} {again : GeneratedFile} {front files : List GeneratedFile} {dir : Path}

theorem fits_settled (h : ∀ file ∈ files, d.Fits file) : ∀ file ∈ settled files, d.Fits file := by
  intro file hfile
  obtain ⟨source, hsource, rfl⟩ := List.mem_map.1 hfile
  obtain ⟨hrelative, hdownward, houtside, hclear⟩ := h source hsource
  exact ⟨hrelative, hdownward, houtside, hclear⟩

theorem Ready.subset {t : Tree} (h : Ready d files t) (hsubset : front ⊆ files) :
    Ready d front t where
  rooted := h.rooted
  staged file hfile := h.staged file (hsubset hfile)
  spare file hfile := h.spare file (hsubset hfile)

theorem Site.Fits.targetKey_notMem_fresh (h : d.Fits again) : d.targetKey again ∉ d.fresh := by
  intro hmem
  have hbegins := Path.Base.place_append_mem_under.1 hmem
  rw [h.outside ((List.prefix_append [d.name] [_]).trans hbegins)] at hbegins
  have hlength := hbegins.length_le
  simp at hlength

variable {σ : Type} [FileSystem (EStateM FileFault σ)] (V : TreeSystem σ) {s : σ}

theorem Freed.get?_staged {t t' : Tree} {previous : Option Path} (h : Freed d again t previous t')
    (hapart : d.Apart again) (hspent : t.get? (d.stagedKey .fresh again) = none) :
    t'.get? (d.stagedKey .fresh again) = none := by
  refine h.grows.get?_eq_none (hapart.notMem_of_reach (.inr ⟨_, rfl, List.prefix_refl _⟩))
    (fun hmem => ?_) hspent
  exact (hapart.notMem_of_around hmem).2.2 (Site.stagedKey_mem_iff.2 List.nil_prefix)

/-- A file that is not staged any more cannot be moved in. -/
theorem install_of_spent (hdir : d.segments = Path.dropSlash dir.segments) (hapart : d.Apart again)
    (h : (V.tree s).Rooted) (hkept : d.Kept again (V.tree s))
    (hspent : (V.tree s).get? (d.stagedKey .fresh again) = none) (moves : List Move)
    (rest : List GeneratedFile) :
    ∃ made e s' s'', (install dir (d.shelfDir .fresh) (d.shelfDir .replaced) moves
          (again :: rest) : EStateM FileFault σ _) s = .ok (made ++ moves, .error e) s' ∧
      (rollBack made : EStateM FileFault σ _) s' = .ok () s'' ∧ Restored V d (V.tree s) s'' := by
  have hfits := hapart.fits
  rw [install, hfits.placeIn_dir hdir, hfits.placeIn_shelf, hfits.placeIn_shelf]
  rcases free_cases V hfits hapart.ne_nil h hkept with
    ⟨previous, s₁, hrun, hfreed⟩ | ⟨e, s₁, hrun, hgrows, hrooted, hcalm⟩
  · rw [bind_of_ok (attempt_of_ok hrun)]
    dsimp only
    rcases V.update_cases (V.rename (d.staged .fresh again) (d.target again) s₁) with
      ⟨s₂, -, htree, -⟩ | ⟨e, s₂, hrename, hsame, -⟩
    · obtain ⟨a, -, ha, -, hsome, -⟩ :=
        Tree.of_rename hfreed.rooted (fun _ hb => hfreed.get?_of_locate hfits hb) htree
      obtain rfl := Tree.eq_of_locate ha.located hfits.place?_staged
      exact absurd (hfreed.get?_staged hapart hspent) hsome
    · rw [bind_of_ok (attempt_of_error hrename)]
      rw [← hsame] at hfreed
      obtain ⟨s', hundo, hrestored⟩ := hfreed.undo V hfits hapart.ne_nil
      exact ⟨[⟨d.target again, previous⟩], e, s₂, s', rfl, hundo, hrestored⟩
  · rw [bind_of_ok (attempt_of_error hrun)]
    refine ⟨[], e, s₁, s₁, rfl, rfl, hcalm, hrooted, ?_⟩
    exact hgrows.mono (Set.empty_subset _) (Set.subset_univ _)

/-- The moves stop at the second file for a place, if what was there is no file. -/
theorem install_of_repeated (hdir : d.segments = Path.dropSlash dir.segments)
    (hfront : Assorted d front) (h : Ready d front (V.tree s)) (hfits : d.Fits again)
    (hagain : namesOf again ∈ front.map namesOf)
    (hnew : ∀ contents, (V.tree s).get? (d.targetKey again) ≠ some (.file contents))
    (rest : List GeneratedFile) :
    ∃ made e s' s'', (install dir (d.shelfDir .fresh) (d.shelfDir .replaced) []
          (front ++ again :: rest) : EStateM FileFault σ _) s = .ok (made, .error e) s' ∧
      (rollBack made : EStateM FileFault σ _) s' = .ok () s'' ∧ Restored V d (V.tree s) s'' := by
  rcases install_append_cases V hdir hfront h [] with
    ⟨made, s₁, hrun, hinstalled, hback⟩ | ⟨made, e, s', s'', hrun, hback, hrestored⟩
  · obtain ⟨file, hfile, hnames⟩ := List.mem_map.1 hagain
    have hkeys : ∀ shelf, d.stagedKey shelf again = d.stagedKey shelf file := by
      intro shelf
      rw [Site.stagedKey, Site.stagedKey, hnames]
    have htarget : d.targetKey again = d.targetKey file := by
      rw [Site.targetKey, Site.targetKey, hnames]
    have hapart : d.Apart again := by
      obtain ⟨-, hne, houtside⟩ := hinstalled.apart file hfile
      exact ⟨hfits, hnames ▸ hne, hnames ▸ houtside⟩
    have hplaced := Tree.get?_of_find? (hinstalled.placed file hfile)
      (hinstalled.apart file hfile).fits.place?_target
    have hkept : d.Kept again (V.tree s₁) := by
      unfold Site.Kept
      rw [hkeys, htarget]
      cases haside : (V.tree s₁).get? (d.stagedKey .replaced file) with
      | none => exact .inl rfl
      | some entry =>
        cases entry with
        | directory => exact .inr ⟨rfl, _, hplaced⟩
        | file contents =>
          rw [htarget] at hnew
          exact absurd (hinstalled.aside file hfile contents haside) (hnew contents)
    obtain ⟨more, e, s', s₂, hinstall, hundo, hrestored⟩ :=
      install_of_spent V hdir hapart hinstalled.rooted hkept
        (hkeys .fresh ▸ hinstalled.spent file hfile) (made ++ []) rest
    obtain ⟨s'', hundo', hrestored⟩ := hback s₂ hrestored
    refine ⟨more ++ made, e, s', s'', ?_, (forM_append_of_ok hundo).trans hundo', hrestored⟩
    rw [hrun, hinstall, List.append_nil]
  · exact ⟨made, e, s', s'', by rw [hrun, List.append_nil], hback, hrestored⟩

theorem PassesBy.subset {tag : String} (h : PassesBy tag dir files) (hsubset : front ⊆ files) :
    PassesBy tag dir front :=
  fun place hplace c hc =>
    h place hplace c (List.cons_subset_cons _ (List.map_subset namesOf hsubset) hc)

section
variable {tag : String} {place : Key}
  (hclear : PassesBy tag dir files) (hplace : dir.place? = some place)

/-- Two files for a place are refused, and all that is not staged is as it was. -/
theorem stageAndInstall_of_repeated (hplain : '/' ∉ tag.toList)
    (hfits : ∀ file ∈ files, (site hclear hplace).Fits file)
    (hrepeated : ¬ (files.map namesOf).Nodup) (h : (V.tree s).Rooted)
    (hfree : (stagingDir tag dir).Allowed → (V.tree s).get? (place ++ [stagingName tag]) = none)
    (hnew : (stagingDir tag dir).Allowed → ∀ names, 2 ≤ (files.map namesOf).count names →
      ∀ contents, (V.tree s).get? (place ++ names) ≠ some (.file contents)) :
    ∃ e s', (stageAndInstall dir (stagingDir tag dir) files : EStateM FileFault σ Unit) s =
        .error e s' ∧
      Grows (site hclear hplace).fresh Set.univ (V.tree s) (V.tree s') := by
  have hfresh : (stagingDir tag dir).join (.ofText "new") = (site hclear hplace).shelfDir .fresh :=
    join_stagingDir hclear hplace hplain .fresh
  have hreplaced : (stagingDir tag dir).join (.ofText "old") =
      (site hclear hplace).shelfDir .replaced :=
    join_stagingDir hclear hplace hplain .replaced
  unfold stageAndInstall
  rw [hfresh, hreplaced]
  rcases stage_settled_cases V hfits h with ⟨s₁, hstage, hstaged⟩ | ⟨e, s', hstage, hgrows⟩
  · rw [stagingDir_eq hplain] at hfree hnew
    rw [← map_namesOf_settled] at hrepeated hnew
    obtain ⟨front, again, rest, hsplit, hnodup, hagain⟩ := exists_first_repeated hrepeated
    have hsubset : front ⊆ settled files := hsplit ▸ List.subset_append_left _ _
    have hmem : again ∈ settled files := hsplit ▸ List.mem_append_right _ List.mem_cons_self
    have hsettled := fits_settled hfits
    have hassorted := hstaged.assorted hsubset
      (fun file hfile => hsettled file (hsubset hfile)) hnodup
    have hready := (hstaged.ready h hfree).subset hsubset
    have htwice : 2 ≤ ((settled files).map namesOf).count (namesOf again) := by
      have hfirst := List.one_le_count_iff.2 hagain
      rw [hsplit, List.map_append, List.map_cons, List.count_append, List.count_cons_self]
      omega
    have hold : ∀ contents,
        (V.tree s₁).get? ((site hclear hplace).targetKey again) ≠ some (.file contents) :=
      fun contents hget => hnew (hstaged.allowed_staging hmem) _ htwice contents
        ((hstaged.grows.file_iff (hsettled again hmem).targetKey_notMem_fresh).1 hget)
    obtain ⟨made, e, s₂, s', hinstall, hback, hrestored⟩ :=
      install_of_repeated V rfl hassorted hready (hsettled again hmem) hagain hold rest
    rw [← hsplit, install_settled] at hinstall
    rw [bind_of_ok hstage, bind_of_ok hinstall]
    refine ⟨e, s', (bind_of_ok hback).trans rfl, ?_⟩
    exact (hstaged.grows.mono le_rfl (Set.subset_univ _)).trans hrestored.grows
  · rw [bind_of_error hstage]
    exact ⟨e, s', rfl, hgrows.mono le_rfl (Set.subset_univ _)⟩

end

/-- A project with several files for one place is refused.  If none of these places holds a file,
all files outside the staging directory are as they were. -/
theorem unchanged_of_write_repeated {tag : String} (hrooted : (V.tree s).Rooted)
    (hfiles : ∀ file ∈ files, WellPlaced tag [file]) (hclear : PassesBy tag dir files)
    (hrepeated : ¬ (files.map namesOf).Nodup)
    (hnew : ∀ place names, dir.place? = some place → 2 ≤ (files.map namesOf).count names →
      ∀ contents, (V.tree s).get? (place ++ names) ≠ some (.file contents)) :
    ∃ e s', (write tag dir files : EStateM FileFault σ _) s = .error e s' ∧
      ∀ k, (∀ staging, (stagingDir tag dir).place? = some staging → ¬ staging <+: k) →
        ∀ contents, (V.tree s').get? k = some (.file contents) ↔
          (V.tree s).get? k = some (.file contents) := by
  obtain ⟨front, again, rest, rfl, -, -⟩ := exists_first_repeated hrepeated
  have hagain := hfiles again (List.mem_append_right _ List.mem_cons_self)
  have hplain := hagain.plain
  unfold write
  rcases prepare_cases V hplain hrooted with
    ⟨s₁, place, hprepare, hplace, hrooted₁, hgrows, hfree⟩ | ⟨e, s₁, hprepare, hgrows⟩
  · have hfits : ∀ file ∈ front ++ again :: rest, (site hclear hplace).Fits file := by
      intro file hfile
      have hclear' : PassesBy tag dir [file] :=
        hclear.subset (List.cons_subset.2 ⟨hfile, List.nil_subset _⟩)
      exact fits_site hclear' hplace (hfiles file hfile) List.mem_cons_self
    have hnew' : (stagingDir tag dir).Allowed →
        ∀ names, 2 ≤ ((front ++ again :: rest).map namesOf).count names →
        ∀ contents, (V.tree s₁).get? (place ++ names) ≠ some (.file contents) := by
      intro hallowed names htwice contents hget
      have hmem : names ∈ (front ++ again :: rest).map namesOf :=
        List.count_pos_iff.1 (Nat.zero_lt_of_lt htwice)
      obtain ⟨file, hfile, rfl⟩ := List.mem_map.1 hmem
      by_cases hname : namesOf file = [stagingName tag]
      · rw [hname, hfree hallowed] at hget
        cases hget
      · refine hnew place _ hplace htwice contents ((hgrows.file_iff fun hmem => hname ?_).1 hget)
        exact (hfiles file hfile).outside file List.mem_cons_self
          ((List.prefix_append_right_inj place).1 hmem)
    obtain ⟨e, s₂, hrun, hgrows₂⟩ :=
      stageAndInstall_of_repeated V hclear hplace hplain hfits hrepeated hrooted₁ hfree hnew'
    obtain ⟨cleaned, s₃, hremove, hgrows₃⟩ := attempt_removeStaging V hplain hplace s₂
    refine ⟨e, s₃, ?_, fun k hk contents => ?_⟩
    · rw [bind_of_ok hprepare, bind_of_ok (attempt_of_error hrun), bind_of_ok hremove]
      rfl
    · have hfresh : (site hclear hplace).fresh ⊆ {k | place ++ [stagingName tag] <+: k} :=
        Path.Base.under_subset (List.prefix_append [stagingName tag] ["new"])
      have hstaging := place?_stagingDir hplain hplace
      exact ((hgrows.trans (hgrows₂.mono hfresh le_rfl)).trans hgrows₃).file_iff (hk _ hstaging)
  · rw [bind_of_error hprepare]
    exact ⟨e, s₁, rfl, fun k _ _ => hgrows.file_iff (Set.notMem_empty k)⟩

/-! ## Two files for one place -/

def twins : List GeneratedFile :=
  [⟨"a", "1"⟩, ⟨"a", "2"⟩]

theorem wellPlaced_twins : ∀ file ∈ twins, WellPlaced "7" [file] := by
  refine List.forall_mem_cons.2 ⟨?_, List.forall_mem_singleton.2 ?_⟩
  · exact ⟨by decide, by decide, by decide, by decide, by decide⟩
  · exact ⟨by decide, by decide, by decide, by decide, by decide⟩

theorem not_isPrefix_of_notMem_staging {k : Key} (hk : ¬ ["out", ".bwire-staging-7"] <+: k) :
    ∀ staging, (stagingDir "7" ⟨["out"]⟩).place? = some staging → ¬ staging <+: k := by
  intro staging hstaging
  have hplace : (stagingDir "7" ⟨["out"]⟩).place? = some ["out", ".bwire-staging-7"] := by rfl
  cases hplace.symm.trans hstaging
  exact hk

def occupiedTree : Tree :=
  ⟨[(["out"], .directory), (["out", "a"], .directory), (["out", "a", "keep"], .file "old")]⟩

theorem keep_of_write_repeated :
    ∃ e s', (write "7" ⟨["out"]⟩ twins : EStateM FileFault FaultyTree _) ⟨occupiedTree, none⟩ =
        .error e s' ∧
      s'.tree.get? ["out", "a", "keep"] = some (.file "old") := by
  have hrooted : (FaultyTree.treeSystem.tree ⟨occupiedTree, none⟩).Rooted :=
    Tree.rooted_of_entries (t := occupiedTree) (by decide)
  have hnew : ∀ place names, Path.place? ⟨["out"]⟩ = some place →
      2 ≤ (twins.map namesOf).count names → ∀ contents,
      occupiedTree.get? (place ++ names) ≠ some (.file contents) := by
    intro place names hplace htwice contents
    have hmem : names ∈ [["a"], ["a"]] := List.count_pos_iff.1 (Nat.zero_lt_of_lt htwice)
    obtain rfl : names = ["a"] := by simpa using hmem
    cases hplace
    exact fun hget => by cases hget
  obtain ⟨e, s', hrun, hsame⟩ := unchanged_of_write_repeated FaultyTree.treeSystem hrooted
    wellPlaced_twins (passesBy_of_downward (by decide)) (by decide) hnew
  exact ⟨e, s', hrun, (hsame _ (not_isPrefix_of_notMem_staging (by decide)) "old").2 rfl⟩

def twiceStagedTree : Tree :=
  ⟨[(["out", ".bwire-staging-7", "new", "a"], .file "2"),
    (["out", ".bwire-staging-7", "new"], .directory), (["out", ".bwire-staging-7"], .directory),
    (["out"], .directory), (["out", "a"], .file "old")]⟩

/-- The second move set the new file aside over the old one. -/
def overwrittenTree : Tree :=
  ⟨[(["out", ".bwire-staging-7", "old", "a"], .file "2"),
    (["out", ".bwire-staging-7", "old"], .directory),
    (["out", ".bwire-staging-7", "new"], .directory), (["out", ".bwire-staging-7"], .directory),
    (["out"], .directory)]⟩

/-- The first move back puts the new file in place, and the second takes it out. -/
def emptiedTree : Tree :=
  ⟨[(["out", ".bwire-staging-7", "old"], .directory),
    (["out", ".bwire-staging-7", "new"], .directory), (["out", ".bwire-staging-7"], .directory),
    (["out"], .directory)]⟩

theorem write_twins :
    (write "7" ⟨["out"]⟩ twins : EStateM FileFault Tree _) oldTree =
      .error .notFound (emptiedTree.eraseAll ["out", ".bwire-staging-7"]) := by
  have hprepare : (prepare ⟨["out"]⟩ ⟨["out", ".bwire-staging-7"]⟩ : EStateM FileFault Tree _)
      oldTree = .ok () oldTree := by rfl
  have hstage : (stage ⟨["out", ".bwire-staging-7", "new"]⟩ twins : EStateM FileFault Tree _)
      oldTree = .ok () twiceStagedTree := by rfl
  have hinstall : (install ⟨["out"]⟩ ⟨["out", ".bwire-staging-7", "new"]⟩
      ⟨["out", ".bwire-staging-7", "old"]⟩ [] twins : EStateM FileFault Tree _) twiceStagedTree =
      .ok ([⟨⟨["out", "a"]⟩, some ⟨["out", ".bwire-staging-7", "old", "a"]⟩⟩,
        ⟨⟨["out", "a"]⟩, some ⟨["out", ".bwire-staging-7", "old", "a"]⟩⟩], .error .notFound)
        overwrittenTree := by rfl
  have hback : (rollBack [⟨⟨["out", "a"]⟩, some ⟨["out", ".bwire-staging-7", "old", "a"]⟩⟩,
      ⟨⟨["out", "a"]⟩, some ⟨["out", ".bwire-staging-7", "old", "a"]⟩⟩] :
      EStateM FileFault Tree _) overwrittenTree = .ok () emptiedTree := by rfl
  have hremove : (attempt (removeDirAll ⟨["out", ".bwire-staging-7"]⟩) : EStateM FileFault Tree _)
      emptiedTree = .ok (.ok ()) (emptiedTree.eraseAll ["out", ".bwire-staging-7"]) := by rfl
  exact write_of_install_error rfl rfl rfl hprepare hstage hinstall hback hremove

/-- A file that is where two files are to go is lost. -/
theorem exists_write_repeated_lost :
    ∃ (t t' : Tree) (dir : Path) (files : List GeneratedFile) (e : FileFault),
      t.Rooted ∧ (∀ file ∈ files, WellPlaced "7" [file]) ∧ PassesBy "7" dir files ∧
      ¬ (files.map namesOf).Nodup ∧
      (write "7" dir files : EStateM FileFault Tree _) t = .error e t' ∧
      ∃ k contents, (∀ staging, (stagingDir "7" dir).place? = some staging → ¬ staging <+: k) ∧
        t.get? k = some (.file contents) ∧ t'.get? k = none := by
  exact ⟨oldTree, _, ⟨["out"]⟩, twins, .notFound, Tree.rooted_of_entries (by decide),
    wellPlaced_twins, passesBy_of_downward (by decide), by decide, write_twins, ["out", "a"],
    "old", not_isPrefix_of_notMem_staging (by decide), by rfl, by rfl⟩

end WireCodec.Project
