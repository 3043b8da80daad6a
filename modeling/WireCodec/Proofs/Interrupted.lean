import WireCodec.Proofs.Trees

/-!
# Trees with failing operations

A file system that holds a tree may fail for reasons that the tree does not show.  A failure leaves
the tree as it is, and is the only one of its kind: from then on the file system is calm, and an
operation fails only if the tree does not allow it.

* `TreeSystem`              a file system that acts on a tree in this way;
* `TreeSystem.makeDirs_cases`, `TreeSystem.update_cases`, `TreeSystem.update_of_calm`
                            what its operations do, by what the tree allows;
* `FaultyTree`              a tree with a fault ahead.
-/

namespace WireCodec

open FileSystem

/-- The outcome of an operation in a state, beside its outcome on the tree of the state. -/
def Agrees {σ α : Type} (tree : σ → Tree) (calm : σ → Prop) (s : σ) :
    EStateM.Result FileFault σ α → EStateM.Result FileFault Tree α → Prop
  | .ok a s', r => r = .ok a (tree s') ∧ (calm s → calm s')
  | .error e s', r => calm s' ∧ (r = .error e (tree s') ∨ ¬ calm s ∧ tree s' = tree s)

/-- A file system whose states hold trees, with the operations that writing a project takes.
Whether a path exists is always answered from the tree; only the other operations may fail where
the tree allows them. -/
structure TreeSystem (σ : Type) [FileSystem (EStateM FileFault σ)] where
  tree : σ → Tree
  /-- No failure is ahead but those that the tree calls for. -/
  calm : σ → Prop
  pathExists (p : Path) (s : σ) :
    (pathExists p : EStateM FileFault σ Bool) s = .ok ((tree s).find? p).isSome s
  makeDirs (p : Path) (s : σ) :
    Agrees tree calm s (makeDirs (m := EStateM FileFault σ) p s) (Tree.makeDirs p (tree s))
  writeFile (p : Path) (contents : String) (s : σ) :
    Agrees tree calm s (writeFile (m := EStateM FileFault σ) p contents s)
      (Tree.update (fun t => t.writeFile p contents) (tree s))
  rename (p q : Path) (s : σ) :
    Agrees tree calm s (rename (m := EStateM FileFault σ) p q s)
      (Tree.update (fun t => t.rename p q) (tree s))
  removeFile (p : Path) (s : σ) :
    Agrees tree calm s (removeFile (m := EStateM FileFault σ) p s)
      (Tree.update (fun t => t.removeFile p) (tree s))
  removeDirAll (p : Path) (s : σ) :
    Agrees tree calm s (removeDirAll (m := EStateM FileFault σ) p s)
      (Tree.update (fun t => t.removeDirAll p) (tree s))

namespace TreeSystem

variable {σ : Type} [FileSystem (EStateM FileFault σ)] (V : TreeSystem σ) {s : σ}

open WireCodec.Tree (Grows)

theorem makeDirs_cases (h : (V.tree s).Rooted) (p : Path) :
    (∃ s', FileSystem.makeDirs (m := EStateM FileFault σ) p s = .ok () s' ∧
      Grows ∅ (Path.way [] p.segments) (V.tree s) (V.tree s') ∧ (V.tree s').Rooted ∧
      (V.tree s').Leads [] p.segments ∧ (V.calm s → V.calm s')) ∨
    ∃ e s', FileSystem.makeDirs (m := EStateM FileFault σ) p s = .error e s' ∧
      Grows ∅ (Path.way [] p.segments) (V.tree s) (V.tree s') ∧ (V.tree s').Rooted ∧
      V.calm s' := by
  have hmade := Tree.made_makeDirs h p
  have hagrees := V.makeDirs p s
  cases hrun : FileSystem.makeDirs (m := EStateM FileFault σ) p s with
  | ok u s' =>
    rw [hrun] at hagrees
    obtain ⟨htree, hcalm⟩ := hagrees
    rw [htree] at hmade
    exact .inl ⟨s', rfl, hmade.1, hmade.2.1, hmade.2.2, hcalm⟩
  | error e s' =>
    rw [hrun] at hagrees
    obtain ⟨hcalm, htree | ⟨-, hsame⟩⟩ := hagrees
    · rw [htree] at hmade
      exact .inr ⟨e, s', rfl, hmade.1, hmade.2, hcalm⟩
    · refine .inr ⟨e, s', rfl, ?_, ?_, hcalm⟩
      · rw [hsame]
        exact .refl _ _ _
      · rw [hsame]
        exact h

variable {r : EStateM.Result FileFault σ Unit} {f : Tree → Except FileFault Tree}

theorem update_cases (h : Agrees V.tree V.calm s r (Tree.update f (V.tree s))) :
    (∃ s', r = .ok () s' ∧ f (V.tree s) = .ok (V.tree s') ∧ (V.calm s → V.calm s')) ∨
    ∃ e s', r = .error e s' ∧ V.tree s' = V.tree s ∧ V.calm s' := by
  cases hf : f (V.tree s) with
  | ok t =>
    rw [Tree.update_of_ok hf] at h
    cases r with
    | ok u s' =>
      obtain ⟨htree, hcalm⟩ := h
      cases htree
      exact .inl ⟨s', rfl, rfl, hcalm⟩
    | error e s' =>
      obtain ⟨hcalm, htree | ⟨-, hsame⟩⟩ := h
      · cases htree
      · exact .inr ⟨e, s', rfl, hsame, hcalm⟩
  | error e =>
    rw [Tree.update_of_error hf] at h
    cases r with
    | ok u s' => cases h.1
    | error e' s' =>
      obtain ⟨hcalm, htree | ⟨-, hsame⟩⟩ := h
      · injection htree with _ hsame
        exact .inr ⟨e', s', rfl, hsame.symm, hcalm⟩
      · exact .inr ⟨e', s', rfl, hsame, hcalm⟩

/-- In a calm state an operation succeeds if the tree allows it. -/
theorem update_of_calm {t : Tree} (h : Agrees V.tree V.calm s r (Tree.update f (V.tree s)))
    (hcalm : V.calm s) (hf : f (V.tree s) = .ok t) :
    ∃ s', r = .ok () s' ∧ V.tree s' = t ∧ V.calm s' := by
  rw [Tree.update_of_ok hf] at h
  cases r with
  | ok u s' =>
    obtain ⟨htree, hkept⟩ := h
    cases htree
    exact ⟨s', rfl, rfl, hkept hcalm⟩
  | error e s' =>
    obtain ⟨-, htree | ⟨hnot, -⟩⟩ := h
    · cases htree
    · exact absurd hcalm hnot

end TreeSystem

/-- A tree, and how many operations succeed before one fails that need not. -/
structure FaultyTree where
  tree : Tree
  fault : Option (Nat × FileFault)

namespace FaultyTree

def outcome (fault : Option (Nat × FileFault)) :
    EStateM.Result FileFault Tree Unit → EStateM.Result FileFault FaultyTree Unit
  | .ok _ t => .ok () ⟨t, fault.map fun (left, e) => (left - 1, e)⟩
  | .error e t => .error e ⟨t, none⟩

/-- Does what is done to the tree, unless it is the turn of the fault. -/
def run (act : EStateM FileFault Tree Unit) : EStateM FileFault FaultyTree Unit
  | ⟨t, some (0, e)⟩ => .error e ⟨t, none⟩
  | ⟨t, fault⟩ => outcome fault (act t)

instance : FileSystem (EStateM FileFault FaultyTree) where
  makeDirs p := run (makeDirs p)
  pathExists p := fun s => .ok (s.tree.find? p).isSome s
  readFile p := fun s =>
    match s.tree.readFile p with
    | .ok contents => .ok contents s
    | .error e => .error e s
  writeFile p contents := run (writeFile p contents)
  rename p q := run (rename p q)
  removeFile p := run (removeFile p)
  removeDirAll p := run (removeDirAll p)

theorem agrees_outcome (s : FaultyTree) (r : EStateM.Result FileFault Tree Unit) :
    Agrees FaultyTree.tree (fun s => s.fault = none) s (outcome s.fault r) r := by
  cases r with
  | ok u t =>
    refine ⟨rfl, fun hcalm => ?_⟩
    rw [hcalm]
    rfl
  | error e t => exact ⟨rfl, .inl rfl⟩

theorem agrees_run (act : EStateM FileFault Tree Unit) (s : FaultyTree) :
    Agrees FaultyTree.tree (fun s => s.fault = none) s (run act s) (act s.tree) := by
  obtain ⟨t, fault⟩ := s
  match fault with
  | none => exact agrees_outcome ⟨t, none⟩ (act t)
  | some (left + 1, e) => exact agrees_outcome ⟨t, some (left + 1, e)⟩ (act t)
  | some (0, e) => exact ⟨rfl, .inr ⟨Option.some_ne_none _, rfl⟩⟩

def treeSystem : TreeSystem FaultyTree where
  tree := FaultyTree.tree
  calm s := s.fault = none
  pathExists _ _ := rfl
  makeDirs _ s := agrees_run _ s
  writeFile _ _ s := agrees_run _ s
  rename _ _ s := agrees_run _ s
  removeFile _ s := agrees_run _ s
  removeDirAll _ s := agrees_run _ s

end FaultyTree
end WireCodec
