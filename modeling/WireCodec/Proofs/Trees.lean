import WireCodec.Proofs.Places
import WireCodec.Proofs.Runs

/-!
# File trees

What the operations on a tree do, said by the entries that can be looked up afterwards.

* `Tree.Rooted t`          every entry lies in a directory;
* `Tree.Moved t t' a b`    what was at `a` is at `b`;
* `Tree.Grows X P t t'`    outside `X` all entries are kept, and directories added in `P`;
* `Tree.made_makeDirs`     what making directories does, if it succeeds and if it fails;
* `Tree.Denotes t p k`     the path `p` ends with a name and leads to `k`;
* `Tree.of_rename`, `Tree.exists_rename`
                           moves to a free place.
-/

namespace WireCodec.Tree

variable {t t' : Tree} {k k' : Key}

/-! ## Looking up entries -/

theorem lookup_filter (entries : List (Key × Entry)) (keep : Key → Bool) (k : Key) :
    (entries.filter fun x => keep x.1).lookup k = if keep k then entries.lookup k else none := by
  induction entries with
  | nil => simp
  | cons x entries ih =>
    obtain ⟨k', e⟩ := x
    by_cases heq : k = k'
    · subst heq
      cases hkeep : keep k with
      | true => simp [hkeep]
      | false => simp [hkeep, ih]
    · have hbeq : (k == k') = false := by simpa using heq
      cases hkeep : keep k' with
      | true => simp [hkeep, List.lookup_cons, hbeq, ih]
      | false => simp [hkeep, List.lookup_cons, hbeq, ih]

theorem get?_nil (t : Tree) : t.get? [] = some .directory := rfl

theorem get?_of_ne_nil (h : k ≠ []) : t.get? k = t.entries.lookup k :=
  if_neg h

theorem get?_erase (hk : k ≠ []) (k' : Key) :
    (t.erase k).get? k' = if k' = k then none else t.get? k' := by
  by_cases hroot : k' = []
  · rw [hroot, if_neg hk.symm]
    rfl
  · rw [get?_of_ne_nil hroot, get?_of_ne_nil hroot]
    have h := lookup_filter t.entries (fun x => x ≠ k) k'
    rw [show (t.erase k).entries.lookup k' = _ from h]
    by_cases heq : k' = k <;> simp [heq]

theorem get?_eraseAll (hk : k ≠ []) (k' : Key) :
    (t.eraseAll k).get? k' = if k <+: k' then none else t.get? k' := by
  by_cases hroot : k' = []
  · rw [hroot, if_neg (by simpa using hk)]
    rfl
  · rw [get?_of_ne_nil hroot, get?_of_ne_nil hroot]
    have h := lookup_filter t.entries (fun x => !k.isPrefixOf x) k'
    rw [show (t.eraseAll k).entries.lookup k' = _ from h]
    by_cases hbegins : k <+: k'
    · simp [hbegins, List.isPrefixOf_iff_prefix.2 hbegins]
    · have hnot : k.isPrefixOf k' = false := by
        rw [← Bool.not_eq_true, List.isPrefixOf_iff_prefix]
        exact hbegins
      simp [hbegins, hnot]

theorem get?_put (hk : k ≠ []) (e : Entry) (k' : Key) :
    (t.put k e).get? k' = if k' = k then some e else t.get? k' := by
  by_cases heq : k' = k
  · subst heq
    rw [get?_of_ne_nil hk, if_pos rfl]
    exact List.lookup_cons_self
  · rw [if_neg heq]
    have herase := get?_erase (t := t) hk k'
    rw [if_neg heq] at herase
    rw [← herase]
    by_cases hroot : k' = []
    · rw [hroot]
      rfl
    · have hbeq : (k' == k) = false := by simpa using heq
      rw [get?_of_ne_nil hroot, get?_of_ne_nil hroot]
      show List.lookup k' ((k, e) :: _) = _
      rw [List.lookup_cons, hbeq]
      rfl

/-! ## Entries in directories -/

/-- Every entry lies in a directory. -/
def Rooted (t : Tree) : Prop :=
  ∀ k n e, t.get? (k ++ [n]) = some e → t.get? k = some .directory

theorem rooted_of_entries (h : ∀ x ∈ t.entries, t.get? x.1.dropLast = some .directory) :
    t.Rooted := by
  intro k n e hget
  rw [get?_of_ne_nil (by simp)] at hget
  obtain ⟨front, back, hentries, -⟩ := List.lookup_eq_some_iff.1 hget
  have hdirectory := h (k ++ [n], e) (hentries ▸ List.mem_append_right _ List.mem_cons_self)
  rw [List.dropLast_concat] at hdirectory
  exact hdirectory

theorem Rooted.directory_of_append (h : t.Rooted) {x : Key} {e : Entry} (hx : x ≠ [])
    (hget : t.get? (k ++ x) = some e) : t.get? k = some .directory := by
  induction x using List.reverseRecOn generalizing e with
  | nil => exact absurd rfl hx
  | append_singleton x n ih =>
    rw [← List.append_assoc] at hget
    have hparent := h _ _ _ hget
    by_cases hnil : x = []
    · rw [hnil, List.append_nil] at hparent
      exact hparent
    · exact ih hnil hparent

theorem Rooted.get?_append_of_none (h : t.Rooted) (hget : t.get? k = none) (x : Key) :
    t.get? (k ++ x) = none := by
  by_cases hx : x = []
  · rw [hx, List.append_nil, hget]
  · cases hentry : t.get? (k ++ x) with
    | none => rfl
    | some e =>
      rw [h.directory_of_append hx hentry] at hget
      cases hget

theorem Rooted.get?_append_of_file (h : t.Rooted) {contents : String}
    (hget : t.get? k = some (.file contents)) {x : Key} (hx : x ≠ []) : t.get? (k ++ x) = none := by
  cases hentry : t.get? (k ++ x) with
  | none => rfl
  | some e =>
    rw [h.directory_of_append hx hentry] at hget
    cases hget

theorem Rooted.eraseAll (h : t.Rooted) (hk : k ≠ []) : (t.eraseAll k).Rooted := by
  intro a n e hget
  rw [get?_eraseAll hk] at hget ⊢
  split at hget
  · cases hget
  · rename_i hout
    rw [if_neg fun hin => hout (hin.trans (List.prefix_append a [n]))]
    exact h _ _ _ hget

theorem Rooted.erase_file (h : t.Rooted) (hk : k ≠ []) {contents : String}
    (hget : t.get? k = some (.file contents)) : (t.erase k).Rooted := by
  intro a n e hentry
  rw [get?_erase hk] at hentry ⊢
  split at hentry
  · cases hentry
  · have hdirectory := h _ _ _ hentry
    have hne : a ≠ k := by
      rintro rfl
      rw [hget] at hdirectory
      cases hdirectory
    rw [if_neg hne]
    exact hdirectory

/-- An entry can be put into a directory where there is none, or a file in place of a file. -/
theorem Rooted.put (h : t.Rooted) (hk : k ≠ []) (hparent : t.get? k.dropLast = some .directory)
    {e : Entry} (hput : e = .directory ∨ t.get? k ≠ some .directory) : (t.put k e).Rooted := by
  intro a n e' hentry
  rw [get?_put hk] at hentry ⊢
  split at hentry
  · rename_i heq
    have ha : a = k.dropLast := by rw [← heq, List.dropLast_concat]
    have hne : a ≠ k := by
      intro h
      rw [h] at heq
      simp at heq
    rw [if_neg hne, ha]
    exact hparent
  · have hdirectory := h _ _ _ hentry
    split
    · rename_i heq
      subst heq
      rcases hput with rfl | hput
      · rfl
      · exact absurd hdirectory hput
    · exact hdirectory

/-! ## Moving -/

/-- What was at `a` or below it is at `b`, and all else is as it was. -/
structure Moved (t t' : Tree) (a b : Key) : Prop where
  arrived : ∀ x, t'.get? (b ++ x) = t.get? (a ++ x)
  gone : ∀ k, a <+: k → ¬ b <+: k → t'.get? k = none
  others : ∀ k, ¬ a <+: k → ¬ b <+: k → t'.get? k = t.get? k

theorem lookup_eq_none_of_get? (hk : k ≠ []) (h : t.get? k = none) (e : Entry) :
    (k, e) ∉ t.entries := by
  rw [get?_of_ne_nil hk, List.lookup_eq_none_iff] at h
  intro hmem
  have := h (k, e) hmem
  simp at this

section
variable {a b : Key}

theorem lookup_cons_of_ne {entries : List (Key × Entry)} {e : Entry} (h : k ≠ k') :
    List.lookup k ((k', e) :: entries) = entries.lookup k := by
  have hbeq : (k == k') = false := by simpa using h
  rw [List.lookup_cons, hbeq]

theorem entries_move_cons {entries : List (Key × Entry)} {e : Entry} :
    ((⟨(k, e) :: entries⟩ : Tree).move a b).entries =
      (if a.isPrefixOf k then (b ++ k.drop a.length, e) else (k, e)) ::
        ((⟨entries⟩ : Tree).move a b).entries :=
  rfl

theorem lookup_move_arrived {entries : List (Key × Entry)} {x : Key}
    (hfree : ∀ e, (b ++ x, e) ∉ entries) :
    ((⟨entries⟩ : Tree).move a b).entries.lookup (b ++ x) = entries.lookup (a ++ x) := by
  induction entries with
  | nil => rfl
  | cons entry entries ih =>
    obtain ⟨k, e⟩ := entry
    have ih := ih fun e hmem => hfree e (List.mem_cons_of_mem _ hmem)
    have hne : b ++ x ≠ k := fun heq => hfree e (heq ▸ List.mem_cons_self)
    rw [entries_move_cons]
    by_cases hbegins : a <+: k
    · rw [if_pos (List.isPrefixOf_iff_prefix.2 hbegins)]
      obtain ⟨y, rfl⟩ := hbegins
      rw [List.drop_left]
      by_cases hy : x = y
      · rw [hy, List.lookup_cons_self, List.lookup_cons_self]
      · have hleft : b ++ x ≠ b ++ y := fun heq => hy (List.append_cancel_left heq)
        have hright : a ++ x ≠ a ++ y := fun heq => hy (List.append_cancel_left heq)
        rw [lookup_cons_of_ne hleft, lookup_cons_of_ne hright, ih]
    · have hnot : a ++ x ≠ k := fun heq => hbegins ⟨x, heq⟩
      rw [if_neg fun h => hbegins (List.isPrefixOf_iff_prefix.1 h), lookup_cons_of_ne hne,
        lookup_cons_of_ne hnot, ih]

theorem lookup_move_elsewhere {entries : List (Key × Entry)} (hb : ¬ b <+: k) :
    ((⟨entries⟩ : Tree).move a b).entries.lookup k =
      if a <+: k then none else entries.lookup k := by
  induction entries with
  | nil => exact (ite_self none).symm
  | cons entry entries ih =>
    obtain ⟨k', e⟩ := entry
    rw [entries_move_cons]
    by_cases hbegins : a <+: k'
    · have hne : k ≠ b ++ k'.drop a.length := fun heq => hb (heq ▸ List.prefix_append _ _)
      rw [if_pos (List.isPrefixOf_iff_prefix.2 hbegins), lookup_cons_of_ne hne, ih]
      split
      · rfl
      · rename_i hout
        have hne : k ≠ k' := fun heq => hout (heq ▸ hbegins)
        rw [lookup_cons_of_ne hne]
    · rw [if_neg fun h => hbegins (List.isPrefixOf_iff_prefix.1 h)]
      by_cases heq : k = k'
      · rw [heq, List.lookup_cons_self, List.lookup_cons_self, if_neg hbegins]
      · rw [lookup_cons_of_ne heq, lookup_cons_of_ne heq, ih]

theorem moved_move (ha : a ≠ []) (hb : b ≠ []) (hfree : ∀ x, t.get? (b ++ x) = none) :
    Moved t (t.move a b) a b := by
  refine ⟨?_, ?_, ?_⟩
  · intro x
    have hbx : b ++ x ≠ [] := fun h => hb (List.append_eq_nil_iff.1 h).1
    have hax : a ++ x ≠ [] := fun h => ha (List.append_eq_nil_iff.1 h).1
    rw [get?_of_ne_nil hbx, get?_of_ne_nil hax]
    exact lookup_move_arrived fun e => lookup_eq_none_of_get? hbx (hfree x) e
  · intro k hak hbk
    have hk : k ≠ [] := by
      rintro rfl
      exact ha (List.prefix_nil.1 hak)
    rw [get?_of_ne_nil hk]
    exact (lookup_move_elsewhere hbk).trans (if_pos hak)
  · intro k hak hbk
    by_cases hk : k = []
    · rw [hk]
      rfl
    · rw [get?_of_ne_nil hk, get?_of_ne_nil hk]
      exact (lookup_move_elsewhere hbk).trans (if_neg hak)

theorem moved_file (h : t.Rooted) (ha : a ≠ []) (hb : b ≠ []) {contents : String}
    (hget : t.get? a = some (.file contents)) (hfree : ∀ x, t.get? (b ++ x) = none) :
    Moved t ((t.erase a).put b (.file contents)) a b := by
  have hab : a ≠ b := by
    rintro rfl
    have := hfree []
    rw [List.append_nil, hget] at this
    cases this
  refine ⟨?_, ?_, ?_⟩
  · intro x
    by_cases hx : x = []
    · rw [hx, List.append_nil, List.append_nil, get?_put hb, if_pos rfl, hget]
    · have hne : b ++ x ≠ b := by simpa using hx
      rw [get?_put hb, if_neg hne, get?_erase ha, h.get?_append_of_file hget hx, hfree x, ite_self]
  · rintro _ ⟨x, rfl⟩ hbk
    have hne : a ++ x ≠ b := fun heq => hbk (heq ▸ List.prefix_refl _)
    rw [get?_put hb, if_neg hne, get?_erase ha]
    by_cases hx : x = []
    · rw [hx, List.append_nil, if_pos rfl]
    · rw [h.get?_append_of_file hget hx, ite_self]
  · intro k hak hbk
    have hnb : k ≠ b := fun heq => hbk (heq ▸ List.prefix_refl _)
    have hna : k ≠ a := fun heq => hak (heq ▸ List.prefix_refl _)
    rw [get?_put hb, if_neg hnb, get?_erase ha, if_neg hna]

theorem Moved.rooted (hmoved : Moved t t' a b) (h : t.Rooted)
    (hparent : t.get? b.dropLast = some .directory) (hinto : ¬ a <+: b) : t'.Rooted := by
  intro k n e hget
  by_cases hbk : b <+: k ++ [n]
  · by_cases heq : b = k ++ [n]
    · have hk : b.dropLast = k := by rw [heq, List.dropLast_concat]
      have hlast : k <+: b := heq ▸ List.prefix_append k [n]
      have hnb : ¬ b <+: k := by
        intro hle
        have hlength := hle.length_le
        rw [heq, List.length_append, List.length_singleton] at hlength
        omega
      rw [hmoved.others k (fun hak => hinto (hak.trans hlast)) hnb, ← hk]
      exact hparent
    · have hle : b <+: k := (List.prefix_concat_iff.1 hbk).resolve_left heq
      obtain ⟨x, rfl⟩ := hle
      rw [List.append_assoc, hmoved.arrived] at hget
      rw [hmoved.arrived]
      rw [← List.append_assoc] at hget
      exact h _ _ _ hget
  · have hnb : ¬ b <+: k := fun hle => hbk (hle.trans (List.prefix_append k [n]))
    by_cases hak : a <+: k ++ [n]
    · rw [hmoved.gone _ hak hbk] at hget
      cases hget
    · have hna : ¬ a <+: k := fun hle => hak (hle.trans (List.prefix_append k [n]))
      rw [hmoved.others _ hak hbk] at hget
      rw [hmoved.others _ hna hnb]
      exact h _ _ _ hget

end

/-! ## Making directories -/

/-- Outside `X` every entry is still there, and new entries are directories at places in `P`. -/
structure Grows (X P : Set Key) (t t' : Tree) : Prop where
  keeps : ∀ k e, k ∉ X → t.get? k = some e → t'.get? k = some e
  adds : ∀ k e, k ∉ X → t'.get? k = some e → t.get? k = some e ∨ e = .directory ∧ k ∈ P

section
variable {X Y P Q : Set Key}

theorem Grows.refl (X P : Set Key) (t : Tree) : Grows X P t t :=
  ⟨fun _ _ _ h => h, fun _ _ _ h => .inl h⟩

theorem Grows.trans {t'' : Tree} (h : Grows X P t t') (h' : Grows X P t' t'') :
    Grows X P t t'' where
  keeps k e hk hget := h'.keeps k e hk (h.keeps k e hk hget)
  adds k e hk hget := (h'.adds k e hk hget).elim (h.adds k e hk) .inr

/-- New directories only count outside of what may change. -/
theorem Grows.mono_outside (h : Grows X P t t') (hX : X ⊆ Y) (hP : ∀ k ∈ P, k ∉ Y → k ∈ Q) :
    Grows Y Q t t' where
  keeps k e hk := h.keeps k e fun hmem => hk (hX hmem)
  adds k e hk hget := (h.adds k e (fun hmem => hk (hX hmem)) hget).imp_right
    fun ⟨he, hmem⟩ => ⟨he, hP k hmem hk⟩

theorem Grows.mono (h : Grows X P t t') (hX : X ⊆ Y) (hP : P ⊆ Q) : Grows Y Q t t' :=
  h.mono_outside hX fun _ hk _ => hP hk

theorem Grows.file_iff (h : Grows X P t t') (hk : k ∉ X) {contents : String} :
    t'.get? k = some (.file contents) ↔ t.get? k = some (.file contents) := by
  refine ⟨fun hget => ?_, h.keeps k _ hk⟩
  rcases h.adds k _ hk hget with hget | ⟨he, -⟩
  · exact hget
  · cases he

theorem Grows.get?_eq_none (h : Grows X P t t') (hk : k ∉ X) (hP : k ∉ P)
    (hget : t.get? k = none) : t'.get? k = none := by
  cases hentry : t'.get? k with
  | none => rfl
  | some e =>
    rcases h.adds k e hk hentry with hold | ⟨-, hmem⟩
    · rw [hget] at hold
      cases hold
    · exact absurd hmem hP

theorem grows_put (hk : k ≠ []) (e : Entry) : Grows {k} P t (t.put k e) where
  keeps k' _ hk' hget := (get?_put hk e k').trans ((if_neg hk').trans hget)
  adds k' _ hk' hget := .inl ((if_neg hk').symm.trans ((get?_put hk e k').symm.trans hget))

theorem Moved.grows {a b : Key} (h : Moved t t' a b) :
    Grows {k | a <+: k ∨ b <+: k} P t t' where
  keeps k e hk hget := by
    rw [h.others k (fun ha => hk (.inl ha)) (fun hb => hk (.inr hb))]
    exact hget
  adds k e hk hget := by
    rw [h.others k (fun ha => hk (.inl ha)) (fun hb => hk (.inr hb))] at hget
    exact .inl hget

/-- What is moved to a free place and back is where it was, whatever directories were made
meanwhile. -/
theorem Moved.moved_back {a b : Key} {t₁ t₂ : Tree} (h : Moved t t₁ a b)
    (hgrows : Grows X Set.univ t₁ t₂) (hback : Moved t₂ t' b a)
    (hfree : ∀ x, t.get? (b ++ x) = none) (hX : ∀ x, b ++ x ∉ X) : Grows X Set.univ t t' where
  keeps k e hk hget := by
    by_cases ha : a <+: k
    · obtain ⟨x, rfl⟩ := ha
      rw [hback.arrived]
      rw [← h.arrived] at hget
      exact hgrows.keeps _ e (hX x) hget
    · have hb : ¬ b <+: k := by
        rintro ⟨x, rfl⟩
        cases hget.symm.trans (hfree x)
      rw [hback.others k hb ha]
      rw [← h.others k ha hb] at hget
      exact hgrows.keeps k e hk hget
  adds k e hk hget := by
    by_cases ha : a <+: k
    · obtain ⟨x, rfl⟩ := ha
      rw [hback.arrived] at hget
      rw [← h.arrived]
      exact (hgrows.adds _ e (hX x) hget).imp_right fun hnew => ⟨hnew.1, trivial⟩
    · by_cases hb : b <+: k
      · cases hget.symm.trans (hback.gone k hb ha)
      · rw [hback.others k hb ha] at hget
        rw [← h.others k ha hb]
        exact hgrows.adds k e hk hget

theorem grows_eraseAll (hk : k ≠ []) : Grows {k' | k <+: k'} P t (t.eraseAll k) where
  keeps k' _ hk' hget := (get?_eraseAll hk k').trans ((if_neg hk').trans hget)
  adds k' _ hk' hget := .inl ((if_neg hk').symm.trans ((get?_eraseAll hk k').symm.trans hget))

theorem grows_put_directory (hk : k ≠ []) (hget : t.get? k = none) (hP : k ∈ P) :
    Grows ∅ P t (t.put k .directory) where
  keeps k' e _ hentry := by
    have hne : k' ≠ k := by
      rintro rfl
      rw [hget] at hentry
      cases hentry
    rw [get?_put hk, if_neg hne]
    exact hentry
  adds k' e _ hentry := by
    rw [get?_put hk] at hentry
    split at hentry
    · rename_i heq
      cases hentry
      exact .inr ⟨rfl, heq ▸ hP⟩
    · exact .inl hentry

end

theorem of_makeDir {name : String} {rest : List String} (h : t.makeDir k name rest = .ok t') :
    t.get? (k ++ [name]) = some .directory ∧ t' = t ∨
      t.get? (k ++ [name]) = none ∧ t' = t.put (k ++ [name]) .directory := by
  obtain ⟨⟨⟩, -, h⟩ := except_bind_eq_ok_iff.1 h
  split at h
  · rename_i hget
    cases h
    exact .inl ⟨hget, rfl⟩
  · cases h
  · rename_i hget
    split at h
    · cases h
    · cases h
      exact .inr ⟨hget, rfl⟩

/-- The segments lead somewhere, and there are directories all the way. -/
def Leads (t : Tree) (k : Key) (segments : List String) : Prop :=
  (∃ last, Path.follow k segments = some last) ∧
    ∀ q ∈ Path.way k segments, t.get? q = some .directory

/-- What making the directories of segments may do to a tree. -/
def Made (k : Key) (segments : List String) (t : Tree) :
    EStateM.Result FileFault Tree Unit → Prop
  | .error _ t' => Grows ∅ (Path.way k segments) t t' ∧ t'.Rooted
  | .ok _ t' => Grows ∅ (Path.way k segments) t t' ∧ t'.Rooted ∧ t'.Leads k segments

theorem Made.cons {segment : String} {rest : List String} {t₁ : Tree}
    {r : EStateM.Result FileFault Tree Unit} (hstep : Path.step? k segment = some k')
    (hgrows : Grows ∅ (Path.way k (segment :: rest)) t t₁) (hk : t.get? k = some .directory)
    (h : Made k' rest t₁ r) : Made k (segment :: rest) t r := by
  have hway : Path.way k' rest ⊆ Path.way k (segment :: rest) :=
    fun q hq => (Path.mem_way_cons_iff hstep).2 (.inr hq)
  cases r with
  | error e t' => exact ⟨hgrows.trans (h.1.mono le_rfl hway), h.2⟩
  | ok u t' =>
    obtain ⟨hrest, hrooted, ⟨last, hlast⟩, hopen⟩ := h
    refine ⟨hgrows.trans (hrest.mono le_rfl hway), hrooted, ⟨last, ?_⟩, fun q hq => ?_⟩
    · rw [Path.follow, hstep]
      exact hlast
    · rcases (Path.mem_way_cons_iff hstep).1 hq with rfl | hq
      · exact hrest.keeps _ _ (Set.notMem_empty _) (hgrows.keeps _ _ (Set.notMem_empty _) hk)
      · exact hopen q hq

theorem update_of_ok {f : Tree → Except FileFault Tree} (h : f t = .ok t') :
    update f t = .ok () t' := by
  unfold update
  rw [h]

theorem update_of_error {f : Tree → Except FileFault Tree} {e : FileFault} (h : f t = .error e) :
    update f t = .error e t := by
  unfold update
  rw [h]

theorem made_makeDirsFrom {segments : List String} (h : t.Rooted)
    (hk : t.get? k = some .directory) : Made k segments t (makeDirsFrom k segments t) := by
  induction segments generalizing k t with
  | nil =>
    refine ⟨.refl _ _ t, h, ⟨k, rfl⟩, ?_⟩
    rintro q (hq | hq)
    · cases hq
    · cases hq
      exact hk
  | cons segment rest ih =>
    cases hidle : Path.isIdle segment with
    | true =>
      rw [makeDirsFrom, if_pos hidle]
      exact .cons (Path.step?_of_idle hidle) (.refl _ _ t) hk (ih h hk)
    | false =>
      rw [makeDirsFrom, hidle, if_neg Bool.false_ne_true]
      by_cases hdots : segment = ".."
      · subst hdots
        rw [if_pos rfl]
        by_cases hroot : k = []
        · rw [if_pos hroot]
          exact ⟨.refl _ _ t, h⟩
        · rw [if_neg hroot]
          refine .cons (if_neg hroot) (.refl _ _ t) hk (ih h ?_)
          rw [← List.dropLast_append_getLast hroot] at hk
          exact h _ _ _ hk
      · rw [if_neg hdots]
        have hstep := Path.step?_of_name (k := k) hidle hdots
        cases hmake : t.makeDir k segment rest with
        | error e =>
          rw [bind_of_error (update_of_error hmake)]
          exact ⟨.refl _ _ t, h⟩
        | ok t₁ =>
          have hne : k ++ [segment] ≠ [] := by simp
          rw [bind_of_ok (update_of_ok hmake)]
          obtain ⟨hget, rfl⟩ | ⟨hget, rfl⟩ := of_makeDir hmake
          · exact .cons hstep (.refl _ _ t₁) hk (ih h hget)
          · refine .cons hstep ?_ hk (ih ?_ ?_)
            · exact grows_put_directory hne hget
                ((Path.mem_way_cons_iff hstep).2 (.inr (Path.mem_way_self _ rest)))
            · refine h.put hne ?_ (.inl rfl)
              rw [List.dropLast_concat]
              exact hk
            · rw [get?_put hne, if_pos rfl]

theorem made_makeDirs (h : t.Rooted) (p : Path) : Made [] p.segments t (makeDirs p t) := by
  unfold makeDirs
  cases checkPath p with
  | error e => exact ⟨.refl _ _ t, h⟩
  | ok u => exact made_makeDirsFrom h (get?_nil t)

/-! ## Operations on entries -/

/-- A path that ends with a name leads to the place `k`. -/
structure Denotes (t : Tree) (p : Path) (k : Key) : Prop where
  endsWithName : p.endsWithName = true
  located : t.locate p = .ok k

section
variable {p q : Path} {a b : Key}

theorem Denotes.place (h : t.Denotes p k) : p.place? = some k :=
  (locate_eq_ok_iff.1 h.located).2.1

theorem Denotes.ne_nil (h : t.Denotes p k) : k ≠ [] :=
  (Path.parent_of_endsWithName h.endsWithName h.place).1

/-- The entry at the end lies in a directory, whether or not it exists. -/
theorem Denotes.directory (h : t.Denotes p k) : t.get? k.dropLast = some .directory :=
  (locate_eq_ok_iff.1 h.located).2.2 _ (Path.parent_of_endsWithName h.endsWithName h.place).2

theorem Denotes.congr (h : t.Denotes p k)
    (hopen : ∀ q ∈ p.stations, t.get? q = some .directory → t'.get? q = some .directory) :
    t'.Denotes p k := by
  obtain ⟨hallowed, hplace, hstations⟩ := locate_eq_ok_iff.1 h.located
  refine ⟨h.endsWithName, locate_eq_ok_iff.2 ⟨hallowed, hplace, fun q hq => ?_⟩⟩
  exact hopen q hq (hstations q hq)

theorem find?_of_locate (h : t.locate p = .ok k) : t.find? p = t.get? k := by
  rw [find?, h]

theorem exists_locate_of_find? {e : Entry} (h : t.find? p = some e) :
    ∃ k, t.locate p = .ok k ∧ t.get? k = some e := by
  unfold find? at h
  split at h
  · next k hk => exact ⟨k, hk, h⟩
  · cases h

theorem get?_of_find? {e : Entry} (h : t.find? p = some e) (hp : p.place? = some k) :
    t.get? k = some e := by
  obtain ⟨k', hk', hget⟩ := exists_locate_of_find? h
  rwa [← eq_of_locate hk' hp]

/-- What a path finds is still found if it and the places on the way may not change. -/
theorem Grows.find? {X P : Set Key} (h : Grows X P t t') {e : Entry} (hfind : t.find? p = some e)
    (hp : p.place? = some k) (hk : k ∉ X) (hway : ∀ q ∈ p.stations, q ∉ X) :
    t'.find? p = some e := by
  obtain ⟨k', hk', -⟩ := exists_locate_of_find? hfind
  obtain ⟨hallowed, -, hstations⟩ := locate_eq_ok_iff.1 hk'
  have hlocated : t'.locate p = .ok k := locate_eq_ok_iff.2 ⟨hallowed, hp,
    fun q hq => h.keeps q _ (hway q hq) (hstations q hq)⟩
  rw [find?_of_locate hlocated]
  exact h.keeps k e hk (get?_of_find? hfind hp)

theorem of_writeFile {contents : String} (h : t.writeFile p contents = .ok t') :
    ∃ k, t.Denotes p k ∧ t.get? k ≠ some .directory ∧ t' = t.put k (.file contents) := by
  obtain ⟨k, hk, h⟩ := except_bind_eq_ok_iff.1 h
  dsimp only at h
  split at h
  · cases h
  · rename_i hfits
    cases h
    simp only [Bool.or_eq_true, Bool.not_eq_true', decide_eq_true_eq, not_or,
      Bool.not_eq_false] at hfits
    exact ⟨k, ⟨hfits.1, hk⟩, hfits.2, rfl⟩

theorem of_removeFile (h : t.removeFile p = .ok t') :
    ∃ k contents, t.locate p = .ok k ∧ t.get? k = some (.file contents) ∧ t' = t.erase k := by
  obtain ⟨k, hk, h⟩ := except_bind_eq_ok_iff.1 h
  split at h
  · rename_i contents hget
    cases h
    exact ⟨k, contents, hk, hget, rfl⟩
  · cases h
  · cases h

theorem removeFile_of_file {contents : String} (hk : t.locate p = .ok k)
    (hget : t.get? k = some (.file contents)) : t.removeFile p = .ok (t.erase k) := by
  refine except_bind_eq_ok_iff.2 ⟨k, hk, ?_⟩
  rw [hget]
  rfl

theorem of_removeDirAll (h : t.removeDirAll p = .ok t') :
    ∃ k, t.locate p = .ok k ∧ t' = t.eraseAll k := by
  obtain ⟨k, hk, h⟩ := except_bind_eq_ok_iff.1 h
  split at h
  · cases h
    exact ⟨k, hk, rfl⟩
  · cases h
  · cases h

theorem not_isPrefix_of_file (h : t.Rooted) {contents : String}
    (hget : t.get? a = some (.file contents)) (hfree : t.get? b = none)
    (hparent : t.get? b.dropLast = some .directory) : ¬ a <+: b := by
  rintro ⟨x, rfl⟩
  by_cases hx : x = []
  · rw [hx, List.append_nil, hget] at hfree
    cases hfree
  · rw [List.dropLast_append_of_ne_nil hx] at hparent
    by_cases hlast : x.dropLast = []
    · rw [hlast, List.append_nil, hget] at hparent
      cases hparent
    · rw [h.get?_append_of_file hget hlast] at hparent
      cases hparent

theorem of_rename (h : t.Rooted) (hfree : ∀ b, t.locate q = .ok b → t.get? b = none)
    (hrename : t.rename p q = .ok t') :
    ∃ a b, t.Denotes p a ∧ t.Denotes q b ∧ t.get? a ≠ none ∧ ¬ a <+: b ∧ Moved t t' a b := by
  unfold rename at hrename
  dsimp only at hrename
  split at hrename
  · cases hrename
  rename_i hnames
  obtain ⟨a, ha, hrename⟩ := except_bind_eq_ok_iff.1 hrename
  obtain ⟨b, hb, hrename⟩ := except_bind_eq_ok_iff.1 hrename
  simp only [Bool.or_eq_true, Bool.not_eq_true', not_or, Bool.not_eq_false] at hnames
  have hp : t.Denotes p a := ⟨hnames.1, ha⟩
  have hq : t.Denotes q b := ⟨hnames.2, hb⟩
  have hnone := hfree b hb
  have hbelow := h.get?_append_of_none hnone
  refine ⟨a, b, hp, hq, ?_⟩
  rw [hnone] at hrename
  cases hget : t.get? a with
  | none =>
    rw [hget] at hrename
    cases hrename
  | some e =>
    rw [hget] at hrename
    cases e with
    | file contents =>
      cases hrename
      exact ⟨Option.some_ne_none _, not_isPrefix_of_file h hget hnone hq.directory,
        moved_file h hp.ne_nil hq.ne_nil hget hbelow⟩
    | directory =>
      dsimp only at hrename
      split at hrename
      · cases hrename
      · rename_i hinto
        cases hrename
        rw [List.isPrefixOf_iff_prefix] at hinto
        exact ⟨Option.some_ne_none _, hinto, moved_move hp.ne_nil hq.ne_nil hbelow⟩

theorem exists_rename (h : t.Rooted) (hp : t.Denotes p a) (hq : t.Denotes q b)
    (hsome : t.get? a ≠ none) (hfree : t.get? b = none) (hinto : ¬ a <+: b) :
    ∃ t', t.rename p q = .ok t' ∧ Moved t t' a b := by
  have hbelow := h.get?_append_of_none hfree
  have hnames : ¬ (!p.endsWithName || !q.endsWithName) = true := by
    rw [hp.endsWithName, hq.endsWithName]
    exact Bool.false_ne_true
  unfold rename
  dsimp only
  rw [if_neg hnames, hp.located, hq.located]
  cases hget : t.get? a with
  | none => exact absurd hget hsome
  | some e =>
    cases e with
    | file contents =>
      refine ⟨_, ?_, moved_file h hp.ne_nil hq.ne_nil hget hbelow⟩
      simp only [bind, Except.bind, hget, hfree]
      rfl
    | directory =>
      refine ⟨_, ?_, moved_move hp.ne_nil hq.ne_nil hbelow⟩
      rw [← List.isPrefixOf_iff_prefix] at hinto
      simp only [bind, Except.bind, hget, hfree, if_neg hinto]
      rfl

end

end WireCodec.Tree
