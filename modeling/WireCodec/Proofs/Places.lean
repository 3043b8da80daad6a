import Mathlib.Data.List.Induction
import Mathlib.Data.Set.Basic
import WireCodec.File.Tree
import WireCodec.Proofs.Writing

/-!
# Places that paths lead to

Where a path leads depends on its segments only.  The tree has a say in whether it can be walked:
every place on the way has to be a directory.

* `Path.place? p`          the place that `p` leads to;
* `Path.stations p`        the places that `p` passes on the way;
* `Path.Allowed p`         the limits on names and on the length of a path;
* `Tree.locate_eq_ok_iff`  a tree locates an allowed path whose stations are directories;
* `Path.exists_parent`     what the parent of a path leaves out;
* `Path.Base`              a directory, with the ways to the paths inside it.
-/

namespace WireCodec

namespace Text

variable {separator : Char} {cs : List Char}

theorem splitAt_ne_nil : splitAt separator cs ≠ [] := by
  fun_cases splitAt separator cs <;> simp [*]

theorem splitAt_of_notMem (h : separator ∉ cs) : splitAt separator cs = [cs] := by
  induction cs with
  | nil => rfl
  | cons c cs ih =>
    obtain ⟨hc, hcs⟩ := not_or.1 (mt List.mem_cons.2 h)
    rw [splitAt, if_neg (Ne.symm hc), ih hcs]

end Text

namespace Path

def step? (k : Key) (segment : String) : Option Key :=
  if isIdle segment then some k
  else if segment = ".." then (if k = [] then none else some k.dropLast)
  else some (k ++ [segment])

def follow (k : Key) : List String → Option Key
  | [] => some k
  | segment :: rest => (step? k segment).bind fun next => follow next rest

/-- The places in front of each segment. -/
def stationsFrom (k : Key) : List String → List Key
  | [] => []
  | segment :: rest => k :: ((step? k segment).map fun next => stationsFrom next rest).getD []

def place? (p : Path) : Option Key :=
  follow [] p.segments

def stations (p : Path) : List Key :=
  stationsFrom [] p.segments

def names (segments : List String) : List String :=
  segments.filter fun segment => !isIdle segment

section
variable {k k' : Key} {segment : String} {segments front back rest : List String}

theorem step?_of_idle (h : isIdle segment = true) : step? k segment = some k := by
  rw [step?, if_pos h]

theorem step?_of_name (h : isIdle segment = false) (hdots : segment ≠ "..") :
    step? k segment = some (k ++ [segment]) := by
  rw [step?, h, if_neg Bool.false_ne_true, if_neg hdots]

theorem follow_append :
    follow k (front ++ back) = (follow k front).bind fun next => follow next back := by
  induction front generalizing k with
  | nil => rfl
  | cons segment front ih =>
    show (step? k segment).bind _ = ((step? k segment).bind _).bind _
    cases step? k segment with
    | none => rfl
    | some next => exact ih

theorem follow_append_of_eq (h : follow k front = some k') :
    follow k (front ++ back) = follow k' back := by
  rw [follow_append, h]
  rfl

theorem stationsFrom_append (h : follow k front = some k') :
    stationsFrom k (front ++ back) = stationsFrom k front ++ stationsFrom k' back := by
  induction front generalizing k with
  | nil =>
    cases h
    rfl
  | cons segment front ih =>
    show k :: ((step? k segment).map _).getD [] = k :: (((step? k segment).map _).getD [] ++ _)
    obtain ⟨next, hnext, h⟩ := Option.bind_eq_some_iff.1 h
    rw [hnext]
    exact congrArg (k :: ·) (ih h)

theorem stationsFrom_isPrefix : stationsFrom k front <+: stationsFrom k (front ++ back) := by
  induction front generalizing k with
  | nil => exact List.nil_prefix
  | cons segment front ih =>
    show k :: ((step? k segment).map _).getD [] <+: k :: ((step? k segment).map _).getD []
    refine (List.prefix_cons_inj k).2 ?_
    cases step? k segment with
    | none => exact List.prefix_refl _
    | some next => exact ih

theorem follow_idle (h : ∀ segment ∈ segments, isIdle segment = true) :
    follow k segments = some k := by
  induction segments with
  | nil => rfl
  | cons segment segments ih =>
    obtain ⟨hidle, hrest⟩ := List.forall_mem_cons.1 h
    rw [follow, step?_of_idle hidle]
    exact ih hrest

theorem names_cons_of_name (h : isIdle segment = false) :
    names (segment :: rest) = segment :: names rest := by
  simp [names, h]

theorem names_cons_of_idle (h : isIdle segment = true) :
    names (segment :: rest) = names rest := by
  simp [names, h]

theorem names_append : names (front ++ back) = names front ++ names back :=
  List.filter_append ..

theorem names_eq_nil_iff : names segments = [] ↔ ∀ segment ∈ segments, isIdle segment = true := by
  rw [names, List.filter_eq_nil_iff]
  refine forall₂_congr fun segment _ => ?_
  rw [Bool.not_eq_true', Bool.not_eq_false]

theorem follow_eq_names (h : ".." ∉ segments) : follow k segments = some (k ++ names segments) := by
  induction segments generalizing k with
  | nil => exact congrArg some (List.append_nil k).symm
  | cons segment segments ih =>
    have hne : segment ≠ ".." := fun heq => h (heq ▸ List.mem_cons_self)
    have hrest : ".." ∉ segments := fun hmem => h (List.mem_cons_of_mem _ hmem)
    cases hidle : isIdle segment with
    | true =>
      rw [follow, step?_of_idle hidle, names_cons_of_idle hidle]
      exact ih hrest
    | false =>
      rw [follow, step?_of_name hidle hne, names_cons_of_name hidle]
      exact (ih hrest).trans (congrArg some (List.append_cons ..).symm)

/-- Without steps up, a path goes through the beginnings of its names. -/
theorem mem_stationsFrom (h : ".." ∉ segments) {q : Key} (hq : q ∈ stationsFrom k segments) :
    ∃ y, q = k ++ y ∧ y <+: names segments := by
  induction segments generalizing k with
  | nil => cases hq
  | cons segment segments ih =>
    have hne : segment ≠ ".." := fun heq => h (heq ▸ List.mem_cons_self)
    have hrest : ".." ∉ segments := fun hmem => h (List.mem_cons_of_mem _ hmem)
    rcases List.mem_cons.1 hq with rfl | hq
    · exact ⟨[], (List.append_nil q).symm, List.nil_prefix⟩
    · cases hidle : isIdle segment with
      | true =>
        rw [step?_of_idle hidle] at hq
        obtain ⟨y, rfl, hy⟩ := ih hrest hq
        refine ⟨y, rfl, ?_⟩
        rw [names_cons_of_idle hidle]
        exact hy
      | false =>
        rw [step?_of_name hidle hne] at hq
        obtain ⟨y, rfl, hy⟩ := ih hrest hq
        refine ⟨segment :: y, (List.append_cons ..).symm, ?_⟩
        rw [names_cons_of_name hidle]
        exact (List.prefix_cons_inj segment).2 hy

end

/-- The places that segments pass and the one they lead to. -/
def way (k : Key) (segments : List String) : Set Key :=
  {q | q ∈ stationsFrom k segments ∨ follow k segments = some q}

theorem mem_way_self (k : Key) (segments : List String) : k ∈ way k segments := by
  cases segments with
  | nil => exact .inr rfl
  | cons segment rest => exact .inl List.mem_cons_self

theorem mem_way_cons_iff {k k' q : Key} {segment : String} {rest : List String}
    (h : step? k segment = some k') : q ∈ way k (segment :: rest) ↔ q = k ∨ q ∈ way k' rest := by
  unfold way
  rw [Set.mem_ofPred_eq, Set.mem_ofPred_eq, stationsFrom, follow, h, Option.map_some,
    Option.getD_some, Option.bind_some, List.mem_cons, or_assoc]

/-- Idle segments at the end do not change the way. -/
theorem way_subset_of_idle {k : Key} {front back : List String}
    (h : ∀ segment ∈ back, isIdle segment = true) : way k front ⊆ way k (front ++ back) := by
  rintro q (hq | hq)
  · exact .inl (stationsFrom_isPrefix.subset hq)
  · refine .inr ?_
    rw [follow_append_of_eq hq]
    exact follow_idle h

/-! ## Joining -/

/-- What is dropped at the end is idle. -/
theorem exists_dropSlash (segments : List String) :
    ∃ idle, segments = dropSlash segments ++ idle ∧ ∀ segment ∈ idle, isIdle segment = true := by
  unfold dropSlash
  split
  · rename_i h
    refine ⟨[""], (List.dropLast_append_getLast? "" h).symm, ?_⟩
    simp [isIdle]
  · exact ⟨[], (List.append_nil segments).symm, by simp⟩

theorem follow_dropSlash (k : Key) (segments : List String) :
    follow k (dropSlash segments) = follow k segments := by
  obtain ⟨idle, hsegments, hidle⟩ := exists_dropSlash segments
  conv_rhs => rw [hsegments, follow_append]
  cases follow k (dropSlash segments) with
  | none => rfl
  | some next => exact (follow_idle hidle).symm

theorem stationsFrom_dropSlash (k : Key) (segments : List String) :
    stationsFrom k (dropSlash segments) <+: stationsFrom k segments := by
  obtain ⟨idle, hsegments, -⟩ := exists_dropSlash segments
  conv_rhs => rw [hsegments]
  exact stationsFrom_isPrefix

theorem join_of_relative {p q : Path} (h : q.isAbsolute = false) :
    p.join q = ⟨dropSlash p.segments ++ q.segments⟩ := by
  rw [join, h, if_neg Bool.false_ne_true]

theorem ofText_of_notMem {text : String} (h : '/' ∉ text.toList) : ofText text = ⟨[text]⟩ := by
  rw [ofText, Text.splitAt_of_notMem h, List.map_singleton, String.ofList_toList]

theorem segments_ofText_ne_nil (text : String) : (ofText text).segments ≠ [] :=
  fun h => Text.splitAt_ne_nil (List.map_eq_nil_iff.1 h)

/-! ## Parents -/

theorem stemsAfter_append (done front back : List String) :
    stemsAfter done (front ++ back) = stemsAfter done front ++ stemsAfter (done ++ front) back := by
  induction front generalizing done with
  | nil => rw [List.append_nil]; rfl
  | cons segment front ih =>
    rw [List.cons_append, stemsAfter, stemsAfter]
    cases isIdle segment with
    | true => simp [ih]
    | false => simp [ih]

theorem stemsAfter_idle {done segments : List String}
    (h : ∀ segment ∈ segments, isIdle segment = true) : stemsAfter done segments = [] := by
  induction segments generalizing done with
  | nil => rfl
  | cons segment segments ih =>
    obtain ⟨hidle, hrest⟩ := List.forall_mem_cons.1 h
    rw [stemsAfter, if_pos hidle]
    exact ih hrest

/-- The last stem ends where only idle segments follow. -/
theorem exists_getLast_stems (segments : List String) :
    ∃ idle, segments = ((stems ⟨segments⟩).getLast?.getD ⟨[]⟩).segments ++ idle ∧
      ∀ segment ∈ idle, isIdle segment = true := by
  induction segments using List.reverseRecOn with
  | nil => exact ⟨[], rfl, by simp⟩
  | append_singleton front segment ih =>
    rw [stems, stemsAfter_append]
    cases hidle : isIdle segment with
    | true =>
      obtain ⟨idle, hfront, hall⟩ := ih
      refine ⟨idle ++ [segment], ?_, ?_⟩
      · have hnone : stemsAfter ([] ++ front) [segment] = [] :=
          stemsAfter_idle (by simpa using hidle)
        rw [hnone, List.append_nil, ← List.append_assoc]
        exact congrArg (· ++ [segment]) hfront
      · simpa [or_imp, forall_and, hidle] using hall
    | false =>
      refine ⟨[], ?_, by simp⟩
      simp [stemsAfter, hidle]

/-- The parent of a path leaves out its last name and idle segments. -/
theorem exists_parent {front back : List String} {name : String} (hname : isIdle name = false)
    (hback : ∀ segment ∈ back, isIdle segment = true) :
    ∃ idle, front = (parent ⟨front ++ name :: back⟩).segments ++ idle ∧
      ∀ segment ∈ idle, isIdle segment = true := by
  have hstems : stems ⟨front ++ name :: back⟩ = stems ⟨front⟩ ++ [⟨front ++ [name]⟩] := by
    rw [stems, stemsAfter_append, List.nil_append, stemsAfter, hname, if_neg Bool.false_ne_true,
      stemsAfter_idle hback]
    rfl
  rw [parent, hstems, List.dropLast_concat]
  exact exists_getLast_stems front

theorem endsWithName_append {front back : List String} (h : back ≠ []) :
    endsWithName ⟨front ++ back⟩ = endsWithName ⟨back⟩ := by
  unfold endsWithName
  rw [List.getLast?_append_of_ne_nil front h]

theorem names_ne_nil_of_endsWithName {segments : List String}
    (h : endsWithName ⟨segments⟩ = true) : names segments ≠ [] := by
  unfold endsWithName at h
  split at h
  · cases h
  · rename_i name hlast
    rw [Bool.and_eq_true, Bool.not_eq_true'] at h
    intro hnil
    rw [names_eq_nil_iff.1 hnil name (List.mem_of_getLast? hlast)] at h
    cases h.1

/-- A path that ends with a name passes the place that holds its entry. -/
theorem parent_of_endsWithName {p : Path} {k : Key} (h : p.endsWithName = true)
    (hplace : p.place? = some k) : k ≠ [] ∧ k.dropLast ∈ p.stations := by
  obtain ⟨segments⟩ := p
  unfold endsWithName at h
  split at h
  · cases h
  rename_i name hlast
  rw [Bool.and_eq_true, Bool.not_eq_true', bne_iff_ne] at h
  obtain ⟨front, rfl⟩ : ∃ front, segments = front ++ [name] :=
    ⟨_, (List.dropLast_append_getLast? name hlast).symm⟩
  rw [place?, follow_append] at hplace
  obtain ⟨last, hfront, hstep⟩ := Option.bind_eq_some_iff.1 hplace
  rw [follow, step?_of_name h.1 h.2] at hstep
  cases hstep
  refine ⟨by simp, ?_⟩
  rw [List.dropLast_concat, stations, stationsFrom_append hfront]
  exact List.mem_append_right _ List.mem_cons_self

/-! ## Paths inside a directory -/

theorem exists_last_name {segments : List String} (h : names segments ≠ []) :
    ∃ front name back, segments = front ++ name :: back ∧ isIdle name = false ∧
      (∀ segment ∈ back, isIdle segment = true) ∧ (names segments).dropLast = names front := by
  induction segments using List.reverseRecOn with
  | nil => exact absurd rfl h
  | append_singleton segments segment ih =>
    cases hidle : isIdle segment with
    | true =>
      have hnames : names (segments ++ [segment]) = names segments := by
        rw [names_append, names_cons_of_idle hidle]
        exact List.append_nil _
      rw [hnames] at h ⊢
      obtain ⟨front, name, back, rfl, hname, hback, hdrop⟩ := ih h
      refine ⟨front, name, back ++ [segment], by simp, hname, ?_, hdrop⟩
      simpa [or_imp, forall_and, hidle] using hback
    | false =>
      refine ⟨segments, segment, [], rfl, hidle, by simp, ?_⟩
      rw [names_append, names_cons_of_name hidle]
      exact List.dropLast_concat

/-- A directory, by the segments of its path and the place that they lead to. -/
structure Base where
  segments : List String
  place : Key
  leads : follow [] segments = some place

namespace Base

def path (d : Base) (segments : List String) : Path :=
  ⟨d.segments ++ segments⟩

/-- The places on the way to the directory, and those from there on along some names. -/
def reach (d : Base) (c : List String) : Set Key :=
  {q | q ∈ stationsFrom [] d.segments ∨ ∃ y, q = d.place ++ y ∧ y <+: c}

/-- Everything at or below a place inside. -/
def under (d : Base) (c : List String) : Set Key :=
  {k | d.place ++ c <+: k}

/-- The way to the directory does not lead through a place inside. -/
def Clear (d : Base) (c : List String) : Prop :=
  ∀ q ∈ stationsFrom [] d.segments, q ∉ d.under c

variable {d : Base} {segments c c' : List String}

theorem place_append_mem_under : d.place ++ c' ∈ d.under c ↔ c <+: c' :=
  List.prefix_append_right_inj d.place

theorem under_subset (h : c <+: c') : d.under c' ⊆ d.under c :=
  fun _ hk => (place_append_mem_under.2 h).trans hk

theorem Clear.mono (h : d.Clear c) (hbegins : c <+: c') : d.Clear c' :=
  fun q hq hk => h q hq (under_subset hbegins hk)

theorem reach_mono (h : c <+: c') : d.reach c ⊆ d.reach c' := by
  rintro q (hq | ⟨y, rfl, hy⟩)
  · exact .inl hq
  · exact .inr ⟨y, rfl, hy.trans h⟩

/-- A way along some names does not meet other names. -/
theorem notMem_under_of_reach (hclear : d.Clear c) (h : ¬ c <+: c') {q : Key}
    (hq : q ∈ d.reach c') : q ∉ d.under c := by
  rcases hq with hq | ⟨y, rfl, hy⟩
  · exact hclear q hq
  · exact fun hmem => h ((place_append_mem_under.1 hmem).trans hy)

theorem place?_path (h : ".." ∉ segments) :
    (d.path segments).place? = some (d.place ++ names segments) := by
  rw [place?, path, follow_append_of_eq d.leads, follow_eq_names h]

theorem way_subset (h : ".." ∉ segments) :
    way [] (d.segments ++ segments) ⊆ d.reach (names segments) := by
  rintro q (hq | hq)
  · rw [stationsFrom_append d.leads] at hq
    exact (List.mem_append.1 hq).imp_right (mem_stationsFrom h)
  · rw [follow_append_of_eq d.leads, follow_eq_names h] at hq
    cases hq
    exact .inr ⟨_, rfl, List.prefix_refl _⟩

theorem way_parent_subset (h : ".." ∉ segments) (hnames : names segments ≠ []) :
    way [] (d.path segments).parent.segments ⊆ d.reach (names segments).dropLast := by
  obtain ⟨front, name, back, rfl, hname, hback, hdrop⟩ := exists_last_name hnames
  have hfront : ".." ∉ front := fun hmem => h (List.mem_append_left _ hmem)
  obtain ⟨idle, hparent, hidle⟩ : ∃ idle, d.segments ++ front =
      (parent ⟨(d.segments ++ front) ++ name :: back⟩).segments ++ idle ∧ _ :=
    exists_parent hname hback
  rw [List.append_assoc] at hparent
  rw [hdrop]
  refine (way_subset_of_idle hidle).trans ?_
  rw [path, ← hparent]
  exact way_subset hfront

theorem stations_subset (h : ".." ∉ segments) (hne : segments ≠ [])
    (hname : (d.path segments).endsWithName = true) :
    ∀ q ∈ (d.path segments).stations, q ∈ d.reach (names segments).dropLast := by
  obtain ⟨front, name, rfl⟩ : ∃ front name, segments = front ++ [name] :=
    ⟨_, _, (List.dropLast_append_getLast hne).symm⟩
  have hfront : ".." ∉ front := fun hmem => h (List.mem_append_left _ hmem)
  rw [endsWithName, path, ← List.append_assoc, List.getLast?_concat] at hname
  simp only [Bool.and_eq_true, Bool.not_eq_true', bne_iff_ne] at hname
  have hdrop : (names (front ++ [name])).dropLast = names front := by
    rw [names_append, names_cons_of_name hname.1]
    exact List.dropLast_concat
  intro q hq
  rw [hdrop]
  refine way_subset hfront ?_
  have hfollow : follow [] (d.segments ++ front) = some (d.place ++ names front) := by
    rw [follow_append_of_eq d.leads, follow_eq_names hfront]
  rw [stations, path, ← List.append_assoc, stationsFrom_append hfollow] at hq
  rcases List.mem_append.1 hq with hq | hq
  · exact .inl hq
  · rw [stationsFrom, step?_of_name hname.1 hname.2] at hq
    cases List.mem_singleton.1 hq
    exact .inr hfollow

end Base

/-! ## Limits -/

/-- The names on the way to a path are allowed, and so is the path as a whole. -/
structure Allowed (p : Path) : Prop where
  whole : Tree.checkPath p = .ok ()
  names : ∀ segment ∈ p.segments, Tree.checkName segment = .ok ()

instance (p : Path) : Decidable p.Allowed :=
  decidable_of_iff (Tree.checkPath p = .ok () ∧
    ∀ segment ∈ p.segments, Tree.checkName segment = .ok ())
    ⟨fun h => ⟨h.1, h.2⟩, fun h => ⟨h.whole, h.names⟩⟩

end Path

/-! ## Walking through a tree -/

namespace Tree

variable {t : Tree}

theorem checkName_of_isIdle {segment : String} (h : Path.isIdle segment = true) :
    checkName segment = .ok () := by
  simp only [Path.isIdle, Bool.or_eq_true, decide_eq_true_eq] at h
  rcases h with rfl | rfl <;> rfl

theorem requireDirectory_eq_ok_iff {k : Key} :
    t.requireDirectory k = .ok () ↔ t.get? k = some .directory := by
  unfold requireDirectory
  split <;> simp_all

theorem walk_cons_eq_ok_iff {k k' : Key} {segment : String} {rest : List String} :
    t.walk k (segment :: rest) = .ok k' ↔ t.get? k = some .directory ∧
      checkName segment = .ok () ∧
      ∃ next, Path.step? k segment = some next ∧ t.walk next rest = .ok k' := by
  rw [walk, except_bind_eq_ok_iff, ← requireDirectory_eq_ok_iff]
  refine ⟨?_, ?_⟩
  · rintro ⟨⟨⟩, hdirectory, h⟩
    refine ⟨hdirectory, ?_⟩
    cases hidle : Path.isIdle segment with
    | true =>
      rw [if_pos hidle] at h
      exact ⟨checkName_of_isIdle hidle, k, Path.step?_of_idle hidle, h⟩
    | false =>
      rw [hidle, if_neg Bool.false_ne_true] at h
      by_cases hdots : segment = ".."
      · rw [if_pos hdots] at h
        by_cases hroot : k = []
        · rw [if_pos hroot] at h
          cases h
        · rw [if_neg hroot] at h
          subst hdots
          exact ⟨rfl, k.dropLast, if_neg hroot, h⟩
      · rw [if_neg hdots] at h
        obtain ⟨⟨⟩, hname, h⟩ := except_bind_eq_ok_iff.1 h
        exact ⟨hname, k ++ [segment], Path.step?_of_name hidle hdots, h⟩
  · rintro ⟨hdirectory, hname, next, hnext, h⟩
    refine ⟨(), hdirectory, ?_⟩
    cases hidle : Path.isIdle segment with
    | true =>
      rw [Path.step?_of_idle hidle] at hnext
      cases hnext
      exact h
    | false =>
      rw [if_neg Bool.false_ne_true]
      by_cases hdots : segment = ".."
      · subst hdots
        by_cases hroot : k = []
        · subst hroot
          cases hnext
        · rw [if_pos rfl, if_neg hroot]
          rw [show Path.step? k ".." = some k.dropLast from if_neg hroot] at hnext
          cases hnext
          exact h
      · rw [Path.step?_of_name hidle hdots] at hnext
        cases hnext
        rw [if_neg hdots]
        exact except_bind_eq_ok_iff.2 ⟨(), hname, h⟩

theorem walk_eq_ok_iff {k k' : Key} {segments : List String} :
    t.walk k segments = .ok k' ↔ Path.follow k segments = some k' ∧
      (∀ q ∈ Path.stationsFrom k segments, t.get? q = some .directory) ∧
      ∀ segment ∈ segments, checkName segment = .ok () := by
  induction segments generalizing k with
  | nil =>
    refine ⟨?_, ?_⟩
    · intro h
      cases h
      exact ⟨rfl, by simp [Path.stationsFrom], by simp⟩
    · rintro ⟨h, -, -⟩
      cases h
      rfl
  | cons segment rest ih =>
    rw [walk_cons_eq_ok_iff, Path.follow, Path.stationsFrom, List.forall_mem_cons,
      List.forall_mem_cons]
    refine ⟨?_, ?_⟩
    · rintro ⟨hdirectory, hname, next, hnext, h⟩
      obtain ⟨hfollow, hstations, hnames⟩ := ih.1 h
      rw [hnext]
      exact ⟨hfollow, ⟨hdirectory, hstations⟩, hname, hnames⟩
    · rintro ⟨hfollow, ⟨hdirectory, hstations⟩, hname, hnames⟩
      obtain ⟨next, hnext, hfollow⟩ := Option.bind_eq_some_iff.1 hfollow
      rw [hnext] at hstations
      exact ⟨hdirectory, hname, next, hnext, ih.2 ⟨hfollow, hstations, hnames⟩⟩

theorem locate_eq_ok_iff {p : Path} {k : Key} :
    t.locate p = .ok k ↔ p.Allowed ∧ p.place? = some k ∧
      ∀ q ∈ p.stations, t.get? q = some .directory := by
  rw [locate, except_bind_eq_ok_iff]
  refine ⟨?_, ?_⟩
  · rintro ⟨⟨⟩, hwhole, h⟩
    obtain ⟨hfollow, hstations, hnames⟩ := walk_eq_ok_iff.1 h
    exact ⟨⟨hwhole, hnames⟩, hfollow, hstations⟩
  · rintro ⟨⟨hwhole, hnames⟩, hfollow, hstations⟩
    exact ⟨(), hwhole, walk_eq_ok_iff.2 ⟨hfollow, hstations, hnames⟩⟩

theorem eq_of_locate {p : Path} {k k' : Key} (h : t.locate p = .ok k) (hp : p.place? = some k') :
    k = k' :=
  Option.some.inj ((locate_eq_ok_iff.1 h).2.1.symm.trans hp)

end Tree

namespace Path

theorem utf8ByteSize_intercalate_le (separator : String) (segments more : List String) :
    (separator.intercalate segments).utf8ByteSize ≤
      (separator.intercalate (segments ++ more)).utf8ByteSize := by
  by_cases hsegments : segments = []
  · rw [hsegments, String.intercalate_nil]
    exact Nat.zero_le _
  · by_cases hmore : more = []
    · exact Nat.le_of_eq (by rw [hmore, List.append_nil])
    · rw [String.intercalate_append_of_ne_nil hsegments hmore, String.utf8ByteSize_append,
        String.utf8ByteSize_append]
      omega

theorem Allowed.of_append {segments more : List String} (h : Allowed ⟨segments ++ more⟩) :
    Allowed ⟨segments⟩ := by
  refine ⟨?_, fun segment hsegment => h.names segment (List.mem_append_left _ hsegment)⟩
  have hwhole := h.whole
  unfold Tree.checkPath at hwhole ⊢
  split at hwhole
  · cases hwhole
  split at hwhole
  · cases hwhole
  split at hwhole
  · cases hwhole
  rename_i hnull hlength habsolute
  have hnull' : ¬ hasNull ⟨segments⟩ = true := by
    intro hany
    refine hnull ?_
    rw [hasNull, List.any_append, Bool.or_eq_true]
    exact .inl hany
  have hlength' : ¬ Tree.maxPathBytes < (text ⟨segments⟩).utf8ByteSize := by
    have hle := utf8ByteSize_intercalate_le "/" segments more
    exact fun hlt => hlength (Nat.lt_of_lt_of_le hlt hle)
  have habsolute' : ¬ isAbsolute ⟨segments⟩ = true := by
    intro hfirst
    refine habsolute ?_
    unfold isAbsolute at hfirst
    split at hfirst
    · rename_i hsegments
      rw [show segments = _ from hsegments]
      rfl
    · cases hfirst
  rw [if_neg hnull', if_neg hlength', if_neg habsolute']

end Path
end WireCodec
