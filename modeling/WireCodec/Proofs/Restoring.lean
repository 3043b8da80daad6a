import WireCodec.Proofs.Installing

/-!
# Failed writes leave the old files

A project that cannot be written leaves all files as they were, whichever operation fails.  The
directory of the project has to stay within reach for this: its path must not lead through an entry
that is moved aside on the way.

* `WellPlaced`            relative paths that differ and stay below the directory;
* `PassesBy`              the path of the directory does not lead through the targets;
* `placed_or_unchanged_of_write_error`
                          a failed write leaves all files outside the staging directory, unless
                          only the removal of that directory failed.
-/

namespace WireCodec.Project

open FileSystem
open WireCodec.Tree (Grows)

def stagingName (tag : String) : String :=
  ".bwire-staging-" ++ tag

/-- Files with different relative paths that stay below the directory of the project and out of the
staging directory. -/
structure WellPlaced (tag : String) (files : List GeneratedFile) : Prop where
  plain : '/' ∉ tag.toList
  relative : ∀ file ∈ files, (Path.ofText file.path).isAbsolute = false
  downward : ∀ file ∈ files, ".." ∉ segmentsOf file
  distinct : (files.map namesOf).Nodup
  outside : ∀ file ∈ files, [stagingName tag] <+: namesOf file → namesOf file = [stagingName tag]

/-- The path of the directory does not lead through the staging directory or a target. -/
def PassesBy (tag : String) (dir : Path) (files : List GeneratedFile) : Prop :=
  ∀ place, dir.place? = some place → ∀ c ∈ [stagingName tag] :: files.map namesOf, c ≠ [] →
    ∀ q ∈ dir.stations, ¬ place ++ c <+: q

variable {tag : String} {dir : Path} {files : List GeneratedFile} {file : GeneratedFile}

/-- A path without steps up only leads through the directories above. -/
theorem passesBy_of_downward (h : ".." ∉ dir.segments) : PassesBy tag dir files := by
  intro place hplace c _ hc q hq hbegins
  rw [Path.place?, Path.follow_eq_names h] at hplace
  cases hplace
  obtain ⟨y, rfl, hy⟩ := Path.mem_stationsFrom h hq
  have hlength := hbegins.length_le.trans hy.length_le
  rw [List.length_append] at hlength
  have hpos := List.length_pos_iff.2 hc
  simp only [List.nil_append] at hlength
  omega

/-! ## The site of a project -/

theorem stagingName_ne_of_length {other : String} (h : other.length < 15) :
    stagingName tag ≠ other := by
  rintro rfl
  rw [stagingName, String.length_append] at h
  have hlength : ".bwire-staging-".length = 15 := rfl
  omega

theorem isIdle_stagingName : Path.isIdle (stagingName tag) = false := by
  have hempty : stagingName tag ≠ "" := stagingName_ne_of_length (by decide)
  have hdot : stagingName tag ≠ "." := stagingName_ne_of_length (by decide)
  simp [Path.isIdle, hempty, hdot]

theorem stagingDir_eq (hplain : '/' ∉ tag.toList) :
    stagingDir tag dir = ⟨Path.dropSlash dir.segments ++ [stagingName tag]⟩ := by
  have hname : '/' ∉ (stagingName tag).toList := by
    rw [stagingName, String.toList_append, List.mem_append, not_or]
    exact ⟨by decide, hplain⟩
  show dir.join (.ofText (stagingName tag)) = _
  rw [Path.ofText_of_notMem hname, Path.join_of_relative rfl]

theorem place?_stagingDir (hplain : '/' ∉ tag.toList) {place : Key}
    (hplace : dir.place? = some place) :
    (stagingDir tag dir).place? = some (place ++ [stagingName tag]) := by
  have hleads := (Path.follow_dropSlash [] dir.segments).trans hplace
  rw [stagingDir_eq hplain, Path.place?, Path.follow_append_of_eq hleads, Path.follow,
    Path.step?_of_name isIdle_stagingName (stagingName_ne_of_length (by decide))]
  rfl

theorem way_dropSlash_subset :
    Path.way [] (Path.dropSlash dir.segments) ⊆ Path.way [] dir.segments := by
  rintro q (hq | hq)
  · exact .inl ((Path.stationsFrom_dropSlash [] dir.segments).subset hq)
  · exact .inr ((Path.follow_dropSlash [] dir.segments).symm.trans hq)

theorem stations_stagingDir (hplain : '/' ∉ tag.toList) {place : Key}
    (hplace : dir.place? = some place) :
    ∀ q ∈ (stagingDir tag dir).stations, q ∈ Path.way [] (Path.dropSlash dir.segments) := by
  intro q hq
  have hleads := (Path.follow_dropSlash [] dir.segments).trans hplace
  rw [stagingDir_eq hplain, Path.stations, Path.stationsFrom_append hleads] at hq
  rcases List.mem_append.1 hq with hq | hq
  · exact .inl hq
  · rw [Path.stationsFrom,
      Path.step?_of_name isIdle_stagingName (stagingName_ne_of_length (by decide))] at hq
    cases List.mem_singleton.1 hq
    exact .inr hleads

def site (hclear : PassesBy tag dir files) {place : Key} (hplace : dir.place? = some place) :
    Site where
  segments := Path.dropSlash dir.segments
  place := place
  leads := (Path.follow_dropSlash [] dir.segments).trans hplace
  name := stagingName tag
  notIdle := isIdle_stagingName
  notUp := stagingName_ne_of_length (by decide)
  clear q hq := hclear place hplace [stagingName tag] List.mem_cons_self (by simp) q
    ((Path.stationsFrom_dropSlash [] dir.segments).subset hq)

section
variable {place : Key} (hclear : PassesBy tag dir files) (hplace : dir.place? = some place)

theorem fits_site (hfiles : WellPlaced tag files) (hfile : file ∈ files) :
    (site hclear hplace).Fits file where
  relative := hfiles.relative file hfile
  downward := hfiles.downward file hfile
  outside := hfiles.outside file hfile
  clear hne q hq := hclear place hplace (namesOf file)
    (List.mem_cons_of_mem _ (List.mem_map_of_mem hfile)) hne q
    ((Path.stationsFrom_dropSlash [] dir.segments).subset hq)

theorem join_stagingDir (hplain : '/' ∉ tag.toList) (shelf : Shelf) :
    (stagingDir tag dir).join (.ofText shelf.name) = (site hclear hplace).shelfDir shelf := by
  have hshelf : Path.ofText shelf.name = ⟨[shelf.name]⟩ := by cases shelf <;> rfl
  have hrelative : Path.isAbsolute ⟨[shelf.name]⟩ = false := by cases shelf <;> rfl
  have hlast : (Path.dropSlash dir.segments ++ [stagingName tag]).getLast? ≠ some "" := by
    rw [List.getLast?_concat]
    exact fun h => stagingName_ne_of_length (by decide) (Option.some.inj h)
  rw [stagingDir_eq hplain, hshelf, Path.join_of_relative hrelative, Path.dropSlash, if_neg hlast,
    List.append_assoc]
  rfl

end

/-! ## Before the moves -/

section
variable {d : Site} {t t' : Tree}

theorem Staged.not_isPrefix (h : Staged d files t t') {other : GeneratedFile} (hfile : file ∈ files)
    (hother : other ∈ files) (hdiff : namesOf file ≠ namesOf other) :
    ¬ namesOf file <+: namesOf other := by
  rintro ⟨x, hx⟩
  have hne : x ≠ [] := by
    rintro rfl
    exact hdiff (by rw [← hx, List.append_nil])
  have hbelow := h.rooted.get?_append_of_file (h.written file hfile) hne
  have hother := h.written other hother
  rw [Site.stagedKey, ← hx] at hother
  rw [Site.stagedKey, List.append_assoc] at hbelow
  cases hother.symm.trans hbelow

theorem Staged.assorted {part : List GeneratedFile} (hpart : part ⊆ files)
    (hfits : ∀ file ∈ part, d.Fits file) (hnodup : (part.map namesOf).Nodup)
    (h : Staged d files t t') : Assorted d part := by
  refine ⟨hfits, fun file hfile => ?_, ?_⟩
  · have hnamed := h.named file (hpart hfile)
    rw [Site.endsWithName_staged] at hnamed
    exact Path.names_ne_nil_of_endsWithName hnamed
  · refine (List.pairwise_map.1 hnodup).imp_of_mem fun {file other} hfile hother hdiff => ?_
    exact ⟨h.not_isPrefix (hpart hfile) (hpart hother) hdiff,
      h.not_isPrefix (hpart hother) (hpart hfile) hdiff.symm⟩

/-- Files can only be staged if the path of the staging directory is allowed. -/
theorem Staged.allowed_staging (h : Staged d files t t') (hfile : file ∈ files) :
    (d.path [d.name]).Allowed :=
  Site.allowed_of_staged (h.allowed file hfile)

theorem Staged.ready (hstaged : Staged d files t t') (h : t.Rooted)
    (hfree : (d.path [d.name]).Allowed → t.get? (d.place ++ [d.name]) = none) :
    Ready d files t' := by
  refine ⟨hstaged.rooted, hstaged.written, fun file hfile => ?_⟩
  have hnone :=
    h.get?_append_of_none (hfree (hstaged.allowed_staging hfile)) ("old" :: namesOf file)
  rw [List.append_assoc] at hnone
  refine hstaged.grows.get?_eq_none ?_ ?_ hnone
  · exact Site.stagedKey_notMem (by decide) []
  · exact fun hmem => hmem (Site.stagedKey_mem_iff.2 List.nil_prefix)

end

section
variable {σ : Type} [FileSystem (EStateM FileFault σ)] (V : TreeSystem σ) {s : σ} {place : Key}
  (hclear : PassesBy tag dir files) (hplace : dir.place? = some place)

/-- All files are moved in, or all that is not staged is as it was. -/
theorem stageAndInstall_cases (hfiles : WellPlaced tag files) (h : (V.tree s).Rooted)
    (hfree : (stagingDir tag dir).Allowed →
      (V.tree s).get? (place ++ [stagingName tag]) = none) :
    (∃ s', (stageAndInstall dir (stagingDir tag dir) files : EStateM FileFault σ Unit) s =
        .ok () s' ∧
      ∀ file ∈ files, (V.tree s').find? (placeIn dir file) = some (.file file.contents)) ∨
    ∃ e s', (stageAndInstall dir (stagingDir tag dir) files : EStateM FileFault σ Unit) s =
        .error e s' ∧
      Grows (site hclear hplace).fresh Set.univ (V.tree s) (V.tree s') := by
  have hfits : ∀ file ∈ files, (site hclear hplace).Fits file :=
    fun file hfile => fits_site hclear hplace hfiles hfile
  have hfresh : (stagingDir tag dir).join (.ofText "new") = (site hclear hplace).shelfDir .fresh :=
    join_stagingDir hclear hplace hfiles.plain .fresh
  have hreplaced : (stagingDir tag dir).join (.ofText "old") =
      (site hclear hplace).shelfDir .replaced :=
    join_stagingDir hclear hplace hfiles.plain .replaced
  unfold stageAndInstall
  rw [hfresh, hreplaced]
  rcases stage_cases V hfits hfiles.distinct h with ⟨s₁, hstage, hstaged⟩ | ⟨e, s', hstage, hgrows⟩
  · rw [bind_of_ok hstage]
    rw [stagingDir_eq hfiles.plain] at hfree
    have hassorted := hstaged.assorted (List.Subset.refl files) hfits hfiles.distinct
    rcases install_cases V rfl hassorted (hstaged.ready h hfree) []
      with ⟨made, s', hinstall, hinstalled⟩ | ⟨made, e, s₂, s', hinstall, hback, hrestored⟩
    · rw [bind_of_ok hinstall]
      refine .inl ⟨s', rfl, fun file hfile => ?_⟩
      rw [(hfits file hfile).placeIn_dir rfl]
      exact hinstalled.placed file hfile
    · rw [bind_of_ok hinstall, List.append_nil]
      refine .inr ⟨e, s', (bind_of_ok hback).trans rfl, ?_⟩
      exact (hstaged.grows.mono le_rfl (Set.subset_univ _)).trans hrestored.grows
  · rw [bind_of_error hstage]
    exact .inr ⟨e, s', rfl, hgrows.mono le_rfl (Set.subset_univ _)⟩

end

section
variable {σ : Type} [FileSystem (EStateM FileFault σ)] (V : TreeSystem σ) {s : σ} {place : Key}

/-- The staging directory is removed with all that is in it, or nothing is. -/
theorem removeStaging_cases (hplain : '/' ∉ tag.toList) (hplace : dir.place? = some place) (s : σ) :
    (∃ s', (removeDirAll (stagingDir tag dir) : EStateM FileFault σ Unit) s = .ok () s' ∧
      V.tree s' = (V.tree s).eraseAll (place ++ [stagingName tag])) ∨
    ∃ e s', (removeDirAll (stagingDir tag dir) : EStateM FileFault σ Unit) s = .error e s' ∧
      V.tree s' = V.tree s := by
  rcases V.update_cases (V.removeDirAll (stagingDir tag dir) s) with
    ⟨s', hrun, htree, -⟩ | ⟨e, s', hrun, hsame, -⟩
  · obtain ⟨k, hk, herased⟩ := Tree.of_removeDirAll htree
    obtain rfl := Tree.eq_of_locate hk (place?_stagingDir hplain hplace)
    exact .inl ⟨s', hrun, herased⟩
  · exact .inr ⟨e, s', hrun, hsame⟩

theorem attempt_removeStaging (hplain : '/' ∉ tag.toList) (hplace : dir.place? = some place)
    (s : σ) : ∃ r s', (attempt (removeDirAll (stagingDir tag dir)) : EStateM FileFault σ _) s =
        .ok r s' ∧
      Grows {k | place ++ [stagingName tag] <+: k} Set.univ (V.tree s) (V.tree s') := by
  rcases removeStaging_cases V hplain hplace s with ⟨s', hrun, htree⟩ | ⟨e, s', hrun, hsame⟩
  · refine ⟨_, s', attempt_of_ok hrun, ?_⟩
    rw [htree]
    exact Tree.grows_eraseAll (by simp)
  · refine ⟨_, s', attempt_of_error hrun, ?_⟩
    rw [hsame]
    exact .refl _ _ _

/-- Nothing is in the way of staging afterwards. -/
theorem prepare_cases (hplain : '/' ∉ tag.toList) (h : (V.tree s).Rooted) :
    (∃ s' place, (prepare dir (stagingDir tag dir) : EStateM FileFault σ Unit) s = .ok () s' ∧
      dir.place? = some place ∧ (V.tree s').Rooted ∧
      Grows {k | place ++ [stagingName tag] <+: k} Set.univ (V.tree s) (V.tree s') ∧
      ((stagingDir tag dir).Allowed → (V.tree s').get? (place ++ [stagingName tag]) = none)) ∨
    ∃ e s', (prepare dir (stagingDir tag dir) : EStateM FileFault σ Unit) s = .error e s' ∧
      Grows ∅ Set.univ (V.tree s) (V.tree s') := by
  rcases V.makeDirs_cases h dir with
    ⟨s₁, hmake, hgrows, hrooted, ⟨⟨place, hplace⟩, hopen⟩, -⟩ | ⟨e, s', hmake, hgrows, -, -⟩
  · have hgrows := hgrows.mono le_rfl (Set.subset_univ _)
    have hne : place ++ [stagingName tag] ≠ [] := by simp
    unfold prepare
    rw [bind_of_ok hmake, bind_of_ok (V.pathExists (stagingDir tag dir) s₁)]
    cases hfind : (V.tree s₁).find? (stagingDir tag dir) with
    | none =>
      refine .inl ⟨s₁, place, rfl, hplace, hrooted, hgrows.mono (Set.empty_subset _) le_rfl, ?_⟩
      intro hallowed
      have hlocated : (V.tree s₁).locate (stagingDir tag dir) = _ :=
        Tree.locate_eq_ok_iff.2 ⟨hallowed, place?_stagingDir hplain hplace,
          fun q hq => hopen q (way_dropSlash_subset (stations_stagingDir hplain hplace q hq))⟩
      rw [← Tree.find?_of_locate hlocated]
      exact hfind
    | some entry =>
      rw [Option.isSome_some, if_pos rfl]
      rcases removeStaging_cases V hplain hplace s₁ with ⟨s', hrun, htree⟩ | ⟨e, s', hrun, hsame⟩
      · refine .inl ⟨s', place, hrun, hplace, ?_, ?_, fun _ => ?_⟩
        · rw [htree]
          exact hrooted.eraseAll hne
        · rw [htree]
          exact (hgrows.mono (Set.empty_subset _) le_rfl).trans (Tree.grows_eraseAll hne)
        · rw [htree, Tree.get?_eraseAll hne, if_pos (List.prefix_refl _)]
      · exact .inr ⟨e, s', hrun, hsame ▸ hgrows⟩
  · unfold prepare
    rw [bind_of_error hmake]
    exact .inr ⟨e, s', rfl, hgrows.mono le_rfl (Set.subset_univ _)⟩

end

/-! ## Two runs that fail -/

theorem write_of_install_error {σ : Type} [FileSystem (EStateM FileFault σ)]
    {s s₁ s₂ s₃ s₄ s' : σ} {moves : List Move} {e : FileFault} {cleaned : Except FileFault Unit}
    {staging fresh replaced : Path} (hstaging : stagingDir tag dir = staging)
    (hfresh : staging.join (.ofText "new") = fresh)
    (hreplaced : staging.join (.ofText "old") = replaced)
    (hprepare : (prepare dir staging : EStateM FileFault σ _) s = .ok () s₁)
    (hstage : (stage fresh files : EStateM FileFault σ _) s₁ = .ok () s₂)
    (hinstall : (install dir fresh replaced [] files : EStateM FileFault σ _) s₂ =
      .ok (moves, .error e) s₃)
    (hback : (rollBack moves : EStateM FileFault σ _) s₃ = .ok () s₄)
    (hremove : (attempt (removeDirAll staging) : EStateM FileFault σ _) s₄ = .ok cleaned s') :
    (write tag dir files : EStateM FileFault σ _) s = .error e s' := by
  have hrun : (stageAndInstall dir staging files : EStateM FileFault σ Unit) s₁ =
      .error e s₄ := by
    unfold stageAndInstall
    rw [hfresh, hreplaced, bind_of_ok hstage, bind_of_ok hinstall]
    exact (bind_of_ok hback).trans rfl
  unfold write
  rw [hstaging, bind_of_ok hprepare, bind_of_ok (attempt_of_error hrun), bind_of_ok hremove]
  rfl

def oldTree : Tree :=
  ⟨[(["out"], .directory), (["out", "a"], .file "old")]⟩

def stagedTree : Tree :=
  ⟨[(["out", ".bwire-staging-7", "new", "a"], .file "new"),
    (["out", ".bwire-staging-7", "new"], .directory), (["out", ".bwire-staging-7"], .directory),
    (["out"], .directory), (["out", "a"], .file "old")]⟩

def asideTree : Tree :=
  ⟨[(["out", ".bwire-staging-7", "old", "a"], .file "old"),
    (["out", ".bwire-staging-7", "old"], .directory),
    (["out", ".bwire-staging-7", "new", "a"], .file "new"),
    (["out", ".bwire-staging-7", "new"], .directory), (["out", ".bwire-staging-7"], .directory),
    (["out"], .directory)]⟩

def putBackTree : Tree :=
  ⟨[(["out", "a"], .file "old"), (["out", ".bwire-staging-7", "old"], .directory),
    (["out", ".bwire-staging-7", "new", "a"], .file "new"),
    (["out", ".bwire-staging-7", "new"], .directory), (["out", ".bwire-staging-7"], .directory),
    (["out"], .directory)]⟩

/-- The fault comes when the file is set aside and its replacement should be moved in. -/
theorem write_interrupted :
    (write "7" ⟨["out"]⟩ [⟨"a", "new"⟩] : EStateM FileFault FaultyTree _)
        ⟨oldTree, some (6, .invalid)⟩ =
      .error .invalid ⟨putBackTree.eraseAll ["out", ".bwire-staging-7"], none⟩ := by
  have hprepare : (prepare ⟨["out"]⟩ ⟨["out", ".bwire-staging-7"]⟩ :
      EStateM FileFault FaultyTree _) ⟨oldTree, some (6, .invalid)⟩ =
        .ok () ⟨oldTree, some (5, .invalid)⟩ := by rfl
  have hstage : (stage ⟨["out", ".bwire-staging-7", "new"]⟩ [⟨"a", "new"⟩] :
      EStateM FileFault FaultyTree _) ⟨oldTree, some (5, .invalid)⟩ =
        .ok () ⟨stagedTree, some (3, .invalid)⟩ := by rfl
  have hinstall : (install ⟨["out"]⟩ ⟨["out", ".bwire-staging-7", "new"]⟩
      ⟨["out", ".bwire-staging-7", "old"]⟩ [] [⟨"a", "new"⟩] : EStateM FileFault FaultyTree _)
        ⟨stagedTree, some (3, .invalid)⟩ =
      .ok ([⟨⟨["out", "a"]⟩, some ⟨["out", ".bwire-staging-7", "old", "a"]⟩⟩], .error .invalid)
        ⟨asideTree, none⟩ := by rfl
  have hback : (rollBack [⟨⟨["out", "a"]⟩, some ⟨["out", ".bwire-staging-7", "old", "a"]⟩⟩] :
      EStateM FileFault FaultyTree _) ⟨asideTree, none⟩ = .ok () ⟨putBackTree, none⟩ := by rfl
  have hremove : (attempt (removeDirAll ⟨["out", ".bwire-staging-7"]⟩) :
      EStateM FileFault FaultyTree _) ⟨putBackTree, none⟩ =
        .ok (.ok ()) ⟨putBackTree.eraseAll ["out", ".bwire-staging-7"], none⟩ := by rfl
  exact write_of_install_error rfl rfl rfl hprepare hstage hinstall hback hremove

/-- A project with a directory that is on the way to it, as `gen/..`. -/
def throughTree : Tree :=
  ⟨[(["gen"], .directory), (["gen", "keep"], .file "old")]⟩

def throughStagedTree : Tree :=
  ⟨[([".bwire-staging-7", "new", "gen"], .file "new"), ([".bwire-staging-7", "new"], .directory),
    ([".bwire-staging-7"], .directory), (["gen"], .directory), (["gen", "keep"], .file "old")]⟩

def strandedTree : Tree :=
  ⟨[([".bwire-staging-7", "old"], .directory), ([".bwire-staging-7", "new", "gen"], .file "new"),
    ([".bwire-staging-7", "new"], .directory), ([".bwire-staging-7"], .directory),
    ([".bwire-staging-7", "old", "gen"], .directory),
    ([".bwire-staging-7", "old", "gen", "keep"], .file "old")]⟩

/-- With `gen` set aside the path `gen/..` leads nowhere, so that nothing can be put back. -/
theorem write_stranded :
    (write "7" ⟨["gen", ".."]⟩ [⟨"gen", "new"⟩] : EStateM FileFault Tree _) throughTree =
      .error .notFound strandedTree := by
  have hprepare : (prepare ⟨["gen", ".."]⟩ ⟨["gen", "..", ".bwire-staging-7"]⟩ :
      EStateM FileFault Tree _) throughTree = .ok () throughTree := by rfl
  have hstage : (stage ⟨["gen", "..", ".bwire-staging-7", "new"]⟩ [⟨"gen", "new"⟩] :
      EStateM FileFault Tree _) throughTree = .ok () throughStagedTree := by rfl
  have hinstall : (install ⟨["gen", ".."]⟩ ⟨["gen", "..", ".bwire-staging-7", "new"]⟩
      ⟨["gen", "..", ".bwire-staging-7", "old"]⟩ [] [⟨"gen", "new"⟩] : EStateM FileFault Tree _)
        throughStagedTree =
      .ok ([⟨⟨["gen", "..", "gen"]⟩, some ⟨["gen", "..", ".bwire-staging-7", "old", "gen"]⟩⟩],
        .error .notFound) strandedTree := by rfl
  have hback : (rollBack [⟨⟨["gen", "..", "gen"]⟩,
      some ⟨["gen", "..", ".bwire-staging-7", "old", "gen"]⟩⟩] : EStateM FileFault Tree _)
        strandedTree = .ok () strandedTree := by rfl
  have hremove : (attempt (removeDirAll ⟨["gen", "..", ".bwire-staging-7"]⟩) :
      EStateM FileFault Tree _) strandedTree = .ok (.error .notFound) strandedTree := by rfl
  exact write_of_install_error rfl rfl rfl hprepare hstage hinstall hback hremove

/-! ## Failed writes -/

/-- After a failed write all files outside the staging directory are as they were, unless all new
files are in place and only the staging directory could not be removed. -/
theorem placed_or_unchanged_of_write_error {σ : Type} [FileSystem (EStateM FileFault σ)]
    (V : TreeSystem σ) {s s' : σ} {e : FileFault} (hrooted : (V.tree s).Rooted)
    (hfiles : WellPlaced tag files) (hclear : PassesBy tag dir files)
    (h : (write tag dir files : EStateM FileFault σ _) s = .error e s') :
    (∃ s₁ s₂, (prepare dir (stagingDir tag dir) : EStateM FileFault σ Unit) s = .ok () s₁ ∧
      (stageAndInstall dir (stagingDir tag dir) files : EStateM FileFault σ Unit) s₁ = .ok () s₂ ∧
      (removeDirAll (stagingDir tag dir) : EStateM FileFault σ Unit) s₂ = .error e s' ∧
      ∀ file ∈ files, (V.tree s').find? (placeIn dir file) = some (.file file.contents)) ∨
    ∀ k, (∀ staging, (stagingDir tag dir).place? = some staging → ¬ staging <+: k) →
      ∀ contents, (V.tree s').get? k = some (.file contents) ↔
        (V.tree s).get? k = some (.file contents) := by
  unfold write at h
  rcases prepare_cases V hfiles.plain hrooted with
    ⟨s₁, place, hprepare, hplace, hrooted₁, hgrows, hfree⟩ | ⟨e, s₁, hprepare, hgrows⟩
  · have hstaging := place?_stagingDir hfiles.plain hplace
    rw [bind_of_ok hprepare] at h
    rcases stageAndInstall_cases V hclear hplace hfiles hrooted₁ hfree with
      ⟨s₂, hrun, hplaced⟩ | ⟨e, s₂, hrun, hgrows₂⟩
    · rw [bind_of_ok (attempt_of_ok hrun)] at h
      rcases removeStaging_cases V hfiles.plain hplace s₂ with
        ⟨s₃, hremove, -⟩ | ⟨e, s₃, hremove, hsame⟩
      · rw [bind_of_ok (attempt_of_ok hremove)] at h
        cases h
      · rw [bind_of_ok (attempt_of_error hremove)] at h
        cases h
        exact .inl ⟨s₁, s₂, hprepare, hrun, hremove, hsame ▸ hplaced⟩
    · obtain ⟨cleaned, s₃, hremove, hgrows₃⟩ := attempt_removeStaging V hfiles.plain hplace s₂
      rw [bind_of_ok (attempt_of_error hrun), bind_of_ok hremove] at h
      cases h
      have hfresh : (site hclear hplace).fresh ⊆ {k | place ++ [stagingName tag] <+: k} :=
        Path.Base.under_subset (List.prefix_append [stagingName tag] ["new"])
      refine .inr fun k hk contents => ?_
      exact ((hgrows.trans (hgrows₂.mono hfresh le_rfl)).trans hgrows₃).file_iff (hk _ hstaging)
  · rw [bind_of_error hprepare] at h
    cases h
    exact .inr fun k _ _ => hgrows.file_iff (Set.notMem_empty k)

theorem unchanged_of_write_interrupted :
    ∃ s', (write "7" ⟨["out"]⟩ [⟨"a", "new"⟩] : EStateM FileFault FaultyTree _)
        ⟨oldTree, some (6, .invalid)⟩ = .error .invalid s' ∧
      ∀ k, (∀ staging, (stagingDir "7" ⟨["out"]⟩).place? = some staging → ¬ staging <+: k) →
        ∀ contents, s'.tree.get? k = some (.file contents) ↔
          oldTree.get? k = some (.file contents) := by
  have hrooted : (FaultyTree.treeSystem.tree ⟨oldTree, some (6, .invalid)⟩).Rooted :=
    Tree.rooted_of_entries (t := oldTree) (by decide)
  have hfiles : WellPlaced "7" [⟨"a", "new"⟩] :=
    ⟨by decide, by decide, by decide, by decide, by decide⟩
  refine ⟨_, write_interrupted, ?_⟩
  rcases placed_or_unchanged_of_write_error FaultyTree.treeSystem hrooted hfiles
    (passesBy_of_downward (by decide)) write_interrupted with ⟨_, _, -, -, -, hplaced⟩ | hsame
  · have hnew := hplaced ⟨"a", "new"⟩ List.mem_cons_self
    have hold : (putBackTree.eraseAll ["out", ".bwire-staging-7"]).find? ⟨["out", "a"]⟩ =
        some (.file "old") := by rfl
    exact absurd (hnew.symm.trans hold) (by decide)
  · exact hsame

/-- Without the condition on the way to the directory a failed write can move a file away. -/
theorem exists_write_error_changed :
    ∃ (t t' : Tree) (dir : Path) (files : List GeneratedFile) (e : FileFault),
      t.Rooted ∧ WellPlaced "7" files ∧
      (write "7" dir files : EStateM FileFault Tree _) t = .error e t' ∧
      (∃ file ∈ files, t'.find? (placeIn dir file) ≠ some (.file file.contents)) ∧
      ∃ k contents, (∀ staging, (stagingDir "7" dir).place? = some staging → ¬ staging <+: k) ∧
        t.get? k = some (.file contents) ∧ t'.get? k = none := by
  refine ⟨throughTree, strandedTree, ⟨["gen", ".."]⟩, [⟨"gen", "new"⟩], .notFound,
    Tree.rooted_of_entries (by decide), ⟨by decide, by decide, by decide, by decide, by decide⟩,
    write_stranded, ⟨⟨"gen", "new"⟩, List.mem_cons_self, by decide⟩, ["gen", "keep"], "old", ?_,
    by rfl, by rfl⟩
  intro staging hstaging
  have hplace : (stagingDir "7" ⟨["gen", ".."]⟩).place? = some [".bwire-staging-7"] := by rfl
  cases hplace.symm.trans hstaging
  decide

end WireCodec.Project
