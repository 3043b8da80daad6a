import WireCodec.File.Project
import WireCodec.Proofs.Interrupted

/-!
# Staging

Where a project is written, and what writing its files to the staging directory does to the tree.

* `Site`            the directory of a project, with the name of the staging directory in it;
* `Site.Fits`       files whose targets are apart from the staging directory;
* `settled`         files with the contents that staging leaves where several have one place;
* `Staged`          the files are below `new`, and all else is as it was;
* `stage_settled_cases`, `stage_cases`
                    staging does this, or fails and leaves all that is not below `new`.
-/

namespace WireCodec.Project

open FileSystem
open WireCodec.Tree (Grows)

def segmentsOf (file : GeneratedFile) : List String :=
  (Path.ofText file.path).segments

/-- The names on the way to a file from the directory of its project. -/
def namesOf (file : GeneratedFile) : List String :=
  Path.names (segmentsOf file)

/-- The directories in the staging directory. -/
inductive Shelf
  | fresh
  | replaced
  deriving DecidableEq

def Shelf.name : Shelf → String
  | fresh => "new"
  | replaced => "old"

/-- A directory and the name of the staging directory in it. -/
structure Site extends Path.Base where
  name : String
  notIdle : Path.isIdle name = false
  notUp : name ≠ ".."
  clear : toBase.Clear [name]

namespace Site

variable {d : Site} {file : GeneratedFile} {shelf : Shelf}

def shelfDir (d : Site) (shelf : Shelf) : Path :=
  d.path [d.name, shelf.name]

def staged (d : Site) (shelf : Shelf) (file : GeneratedFile) : Path :=
  d.path (d.name :: shelf.name :: segmentsOf file)

def stagedKey (d : Site) (shelf : Shelf) (file : GeneratedFile) : Key :=
  d.place ++ (d.name :: shelf.name :: namesOf file)

def target (d : Site) (file : GeneratedFile) : Path :=
  d.path (segmentsOf file)

def targetKey (d : Site) (file : GeneratedFile) : Key :=
  d.place ++ namesOf file

structure Fits (d : Site) (file : GeneratedFile) : Prop where
  relative : (Path.ofText file.path).isAbsolute = false
  downward : ".." ∉ segmentsOf file
  outside : [d.name] <+: namesOf file → namesOf file = [d.name]
  clear : namesOf file ≠ [] → d.Clear (namesOf file)

theorem names_staged : Path.names (d.name :: shelf.name :: segmentsOf file) =
    d.name :: shelf.name :: namesOf file := by
  have hshelf : Path.isIdle shelf.name = false := by cases shelf <;> rfl
  rw [Path.names_cons_of_name d.notIdle, Path.names_cons_of_name hshelf]
  rfl

theorem Fits.staged_downward (h : d.Fits file) (shelf : Shelf) :
    ".." ∉ d.name :: shelf.name :: segmentsOf file := by
  have hshelf : ".." ≠ shelf.name := by cases shelf <;> decide
  simp only [List.mem_cons, not_or]
  exact ⟨d.notUp.symm, hshelf, h.downward⟩

theorem Fits.placeIn_dir (h : d.Fits file) {dir : Path}
    (hdir : d.segments = Path.dropSlash dir.segments) : placeIn dir file = d.target file := by
  rw [placeIn, Path.join_of_relative h.relative, ← hdir]
  rfl

theorem Fits.placeIn_shelf (h : d.Fits file) :
    placeIn (d.shelfDir shelf) file = d.staged shelf file := by
  have hlast : (d.shelfDir shelf).segments.getLast? ≠ some "" := by
    rw [shelfDir, Path.Base.path, List.getLast?_append]
    cases shelf <;> simp [Shelf.name]
  rw [placeIn, Path.join_of_relative h.relative, Path.dropSlash, if_neg hlast, shelfDir,
    Path.Base.path, List.append_assoc]
  rfl

theorem Fits.place?_target (h : d.Fits file) :
    (d.target file).place? = some (d.targetKey file) :=
  Path.Base.place?_path h.downward

theorem Fits.place?_staged (h : d.Fits file) :
    (d.staged shelf file).place? = some (d.stagedKey shelf file) := by
  rw [staged, Path.Base.place?_path (h.staged_downward shelf), names_staged]
  rfl

theorem endsWithName_target :
    (d.target file).endsWithName = Path.endsWithName ⟨segmentsOf file⟩ :=
  Path.endsWithName_append (Path.segments_ofText_ne_nil _)

theorem endsWithName_staged :
    (d.staged shelf file).endsWithName = Path.endsWithName ⟨segmentsOf file⟩ := by
  rw [staged, Path.Base.path, List.append_cons, List.append_cons]
  exact Path.endsWithName_append (Path.segments_ofText_ne_nil _)

/-- The path of the staging directory is no longer than those of the files in it. -/
theorem allowed_of_staged (h : (d.staged shelf file).Allowed) : (d.path [d.name]).Allowed := by
  rw [staged, Path.Base.path, List.append_cons] at h
  exact h.of_append

theorem Fits.way_parent_staged (h : d.Fits file) :
    Path.way [] (d.staged shelf file).parent.segments ⊆
      d.reach (d.name :: shelf.name :: namesOf file).dropLast := by
  rw [← names_staged]
  refine Path.Base.way_parent_subset (h.staged_downward shelf) ?_
  rw [names_staged]
  exact List.cons_ne_nil _ _

theorem Fits.way_parent_target (h : d.Fits file) (hne : namesOf file ≠ []) :
    Path.way [] (d.target file).parent.segments ⊆ d.reach (namesOf file).dropLast :=
  Path.Base.way_parent_subset h.downward hne

/-- Where files are put before they are moved. -/
def fresh (d : Site) : Set Key :=
  d.under [d.name, Shelf.fresh.name]

/-- Where files go that are in the way. -/
def replaced (d : Site) : Set Key :=
  d.under [d.name, Shelf.replaced.name]

theorem stagedKey_mem_iff {c : List String} :
    d.stagedKey shelf file ∈ d.under (d.name :: shelf.name :: c) ↔ c <+: namesOf file := by
  rw [stagedKey, Path.Base.place_append_mem_under, List.cons_prefix_cons, List.cons_prefix_cons]
  simp

theorem namesOf_eq_of_stagedKey {other : GeneratedFile}
    (h : d.stagedKey shelf file = d.stagedKey shelf other) : namesOf file = namesOf other :=
  (List.cons.inj (List.cons.inj (List.append_cancel_left h)).2).2

theorem stagedKey_append_notMem {other : Shelf} (h : shelf ≠ other) (x : Key) (c : List String) :
    d.stagedKey shelf file ++ x ∉ d.under (d.name :: other.name :: c) := by
  have hname : other.name ≠ shelf.name := by
    intro heq
    cases shelf <;> cases other <;> simp_all [Shelf.name]
  intro hmem
  rw [stagedKey, List.append_assoc, Path.Base.place_append_mem_under] at hmem
  exact hname (List.cons_prefix_cons.1 (List.cons_prefix_cons.1 hmem).2).1

theorem stagedKey_notMem {other : Shelf} (h : shelf ≠ other) (c : List String) :
    d.stagedKey shelf file ∉ d.under (d.name :: other.name :: c) := by
  rw [← List.append_nil (d.stagedKey shelf file)]
  exact stagedKey_append_notMem h [] c

theorem notMem_of_clear {c c' : List String} {q : Key} (h : ¬ d.name :: c <+: c')
    (hq : q ∈ d.reach c') : q ∉ d.under (d.name :: c) :=
  Path.Base.notMem_under_of_reach (d.clear.mono (List.prefix_append [d.name] c)) h hq

end Site

/-! ## Files for one place -/

/-- The contents of the last file that leads along some names. -/
def lastContents : List GeneratedFile → List String → String
  | [], _ => ""
  | file :: files, names =>
    if names ∈ files.map namesOf then lastContents files names else file.contents

/-- The files, each with the contents of the last one for its place. -/
def settled (files : List GeneratedFile) : List GeneratedFile :=
  files.map fun file => ⟨file.path, lastContents files (namesOf file)⟩

theorem settled_cons (file : GeneratedFile) (files : List GeneratedFile) :
    settled (file :: files) =
      ⟨file.path, lastContents (file :: files) (namesOf file)⟩ :: settled files := by
  rw [settled, List.map_cons, settled]
  congr 1
  refine List.map_congr_left fun other hother => ?_
  rw [lastContents, if_pos (List.mem_map_of_mem hother)]

theorem settled_eq_self {files : List GeneratedFile} (h : (files.map namesOf).Nodup) :
    settled files = files := by
  induction files with
  | nil => rfl
  | cons file files ih =>
    obtain ⟨hnew, hnodup⟩ := List.nodup_cons.1 h
    rw [settled_cons, ih hnodup, lastContents, if_neg hnew]

/-! ## Staged files -/

/-- The files are below `new`, and there may be new directories, but not below `old`. -/
structure Staged (d : Site) (files : List GeneratedFile) (t t' : Tree) : Prop where
  grows : Grows d.fresh d.replacedᶜ t t'
  rooted : t'.Rooted
  frame : ∀ k e, (∀ file ∈ files, k ≠ d.stagedKey .fresh file) →
    t.get? k = some e → t'.get? k = some e
  written : ∀ file ∈ files, t'.get? (d.stagedKey .fresh file) =
    some (.file file.contents)
  named : ∀ file ∈ files, (d.staged .fresh file).endsWithName = true
  allowed : ∀ file ∈ files, (d.staged .fresh file).Allowed

section
variable {d : Site} {file : GeneratedFile} {files : List GeneratedFile} {t t₁ t' : Tree}

theorem staged_nil (h : t.Rooted) : Staged d [] t t :=
  ⟨.refl _ _ t, h, fun _ _ _ hget => hget, by simp, by simp, by simp⟩

/-- A file is staged, and then others; one of them may take its place. -/
theorem Staged.cons (h : Staged d [file] t t₁) (h' : Staged d (settled files) t₁ t') :
    Staged d (settled (file :: files)) t t' := by
  rw [settled_cons]
  refine ⟨h.grows.trans h'.grows, h'.rooted, ?_, ?_, ?_, ?_⟩
  · intro k e hk hget
    obtain ⟨hfile, hfiles⟩ := List.forall_mem_cons.1 hk
    exact h'.frame k e hfiles (h.frame k e (List.forall_mem_singleton.2 hfile) hget)
  · refine List.forall_mem_cons.2 ⟨?_, h'.written⟩
    show t'.get? (d.stagedKey .fresh file) = some (.file (lastContents (file :: files) _))
    rw [lastContents]
    split
    · next hmem =>
      -- A later file took the place.
      obtain ⟨other, hother, hnames⟩ := List.mem_map.1 hmem
      have hwritten := h'.written _ (List.mem_map_of_mem hother)
      rw [← hnames]
      rw [Site.stagedKey, ← hnames]
      exact hwritten
    · next hmem =>
      refine h'.frame _ _ (fun other hother heq => hmem ?_) (h.written file List.mem_cons_self)
      obtain ⟨source, hsource, rfl⟩ := List.mem_map.1 hother
      have hnames : namesOf file = namesOf source := Site.namesOf_eq_of_stagedKey heq
      exact hnames ▸ List.mem_map_of_mem hsource
  · exact List.forall_mem_cons.2 ⟨h.named file List.mem_cons_self, h'.named⟩
  · exact List.forall_mem_cons.2 ⟨h.allowed file List.mem_cons_self, h'.allowed⟩

theorem staged_put (hgrows : Grows ∅ d.replacedᶜ t t₁) (hrooted : t₁.Rooted)
    (hdenotes : t₁.Denotes (d.staged .fresh file) (d.stagedKey .fresh file))
    (hfile : t₁.get? (d.stagedKey .fresh file) ≠ some .directory) :
    Staged d [file] t
      (t₁.put (d.stagedKey .fresh file) (.file file.contents)) := by
  have hne := hdenotes.ne_nil
  have hfresh : {d.stagedKey .fresh file} ⊆ d.fresh := by
    rintro _ rfl
    exact Site.stagedKey_mem_iff.2 List.nil_prefix
  refine ⟨?_, ?_, ?_, ?_, ?_, ?_⟩
  · exact (hgrows.mono (Set.empty_subset _) le_rfl).trans
      ((Tree.grows_put hne _).mono hfresh le_rfl)
  · exact hrooted.put hne hdenotes.directory (.inr hfile)
  · intro k e hk hget
    rw [Tree.get?_put hne, if_neg (hk file List.mem_cons_self)]
    exact hgrows.keeps k e (Set.notMem_empty k) hget
  · rintro _ (_ | ⟨_, ⟨⟩⟩)
    rw [Tree.get?_put hne, if_pos rfl]
  · rintro _ (_ | ⟨_, ⟨⟩⟩)
    exact hdenotes.endsWithName
  · rintro _ (_ | ⟨_, ⟨⟩⟩)
    exact (Tree.locate_eq_ok_iff.1 hdenotes.located).1

variable {σ : Type} [FileSystem (EStateM FileFault σ)] (V : TreeSystem σ) {s : σ}

theorem stage_one_cases (hfits : d.Fits file) (h : (V.tree s).Rooted) :
    (∃ s', (makeDirs (d.staged .fresh file).parent >>= fun _ =>
        writeFile (d.staged .fresh file) file.contents : EStateM FileFault σ Unit) s = .ok () s' ∧
      Staged d [file] (V.tree s) (V.tree s')) ∨
    ∃ e s', (makeDirs (d.staged .fresh file).parent >>= fun _ =>
        writeFile (d.staged .fresh file) file.contents : EStateM FileFault σ Unit) s =
          .error e s' ∧
      Grows d.fresh d.replacedᶜ (V.tree s) (V.tree s') := by
  have hway : Path.way [] (d.staged .fresh file).parent.segments ⊆ d.replacedᶜ := by
    refine hfits.way_parent_staged.trans fun q hq => ?_
    refine Site.notMem_of_clear ?_ (Path.Base.reach_mono (List.dropLast_prefix _) hq)
    simp [Shelf.name]
  rcases V.makeDirs_cases h (d.staged .fresh file).parent with
    ⟨s₁, hmake, hgrows, hrooted, -, -⟩ | ⟨e, s₁, hmake, hgrows, -, -⟩
  · rw [bind_of_ok hmake]
    have hgrows := hgrows.mono le_rfl hway
    rcases V.update_cases (V.writeFile (d.staged .fresh file) file.contents s₁) with
      ⟨s', hwrite, htree, -⟩ | ⟨e, s', hwrite, hsame, -⟩
    · obtain ⟨k, hdenotes, hfile, hput⟩ := Tree.of_writeFile htree
      obtain rfl := Tree.eq_of_locate hdenotes.located hfits.place?_staged
      refine .inl ⟨s', hwrite, ?_⟩
      rw [hput]
      exact staged_put hgrows hrooted hdenotes hfile
    · refine .inr ⟨e, s', hwrite, ?_⟩
      rw [hsame]
      exact hgrows.mono (Set.empty_subset _) le_rfl
  · rw [bind_of_error hmake]
    exact .inr ⟨e, s₁, rfl, hgrows.mono (Set.empty_subset _) hway⟩

theorem stage_cons (hfits : d.Fits file) :
    (stage (d.shelfDir .fresh) (file :: files) : EStateM FileFault σ Unit) =
      (makeDirs (d.staged .fresh file).parent >>= fun _ =>
        writeFile (d.staged .fresh file) file.contents) >>= fun _ =>
          stage (d.shelfDir .fresh) files := by
  rw [← hfits.placeIn_shelf]
  rfl

/-- Staging succeeds, or fails and leaves all files that are not staged ones.  Of several files for
one place the last is staged. -/
theorem stage_settled_cases (hfits : ∀ file ∈ files, d.Fits file) (h : (V.tree s).Rooted) :
    (∃ s', (stage (d.shelfDir .fresh) files : EStateM FileFault σ Unit) s = .ok () s' ∧
      Staged d (settled files) (V.tree s) (V.tree s')) ∨
    ∃ e s', (stage (d.shelfDir .fresh) files : EStateM FileFault σ Unit) s = .error e s' ∧
      Grows d.fresh d.replacedᶜ (V.tree s) (V.tree s') := by
  induction files generalizing s with
  | nil => exact .inl ⟨s, rfl, staged_nil h⟩
  | cons file files ih =>
    obtain ⟨hfile, hfiles⟩ := List.forall_mem_cons.1 hfits
    rw [stage_cons hfile]
    rcases stage_one_cases V hfile h with ⟨s₁, hone, hstaged⟩ | ⟨e, s₁, hone, hgrows⟩
    · rw [bind_of_ok hone]
      rcases ih hfiles hstaged.rooted with ⟨s', hrest, hstaged'⟩ | ⟨e, s', hrest, hgrows⟩
      · exact .inl ⟨s', hrest, hstaged.cons hstaged'⟩
      · exact .inr ⟨e, s', hrest, hstaged.grows.trans hgrows⟩
    · rw [bind_of_error hone]
      exact .inr ⟨e, s₁, rfl, hgrows⟩

theorem stage_cases (hfits : ∀ file ∈ files, d.Fits file) (hnodup : (files.map namesOf).Nodup)
    (h : (V.tree s).Rooted) :
    (∃ s', (stage (d.shelfDir .fresh) files : EStateM FileFault σ Unit) s = .ok () s' ∧
      Staged d files (V.tree s) (V.tree s')) ∨
    ∃ e s', (stage (d.shelfDir .fresh) files : EStateM FileFault σ Unit) s = .error e s' ∧
      Grows d.fresh d.replacedᶜ (V.tree s) (V.tree s') := by
  have hstage := stage_settled_cases V hfits h
  rwa [settled_eq_self hnodup] at hstage

end
end WireCodec.Project
