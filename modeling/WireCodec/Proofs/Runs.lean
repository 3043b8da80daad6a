import WireCodec.File.System

/-!
# Runs of computations

A computation over a state is run step by step: what follows a step that succeeds runs in the
state it left, and nothing follows a step that fails.
-/

namespace WireCodec

section
variable {ε σ α β : Type} {x : EStateM ε σ α} {next : α → EStateM ε σ β} {s s' : σ} {a : α} {e : ε}

theorem bind_of_ok (h : x s = .ok a s') : (x >>= next) s = next a s' := by
  show EStateM.bind x next s = next a s'
  unfold EStateM.bind
  rw [h]

theorem bind_of_error (h : x s = .error e s') : (x >>= next) s = .error e s' := by
  show EStateM.bind x next s = .error e s'
  unfold EStateM.bind
  rw [h]

theorem forM_cons_eq {act : α → EStateM ε σ PUnit} {xs : List α} :
    (a :: xs).forM act = act a >>= fun _ => xs.forM act :=
  rfl

theorem forM_append_of_ok {act : α → EStateM ε σ PUnit} {xs ys : List α} {u : PUnit}
    (h : xs.forM act s = .ok u s') : (xs ++ ys).forM act s = ys.forM act s' := by
  have happend : (xs ++ ys).forM act = xs.forM act >>= fun _ => ys.forM act := List.forM_append
  rw [happend, bind_of_ok h]

end

section
variable {σ α : Type} {x : EStateM FileFault σ α} {s s' : σ}

theorem attempt_of_ok {a : α} (h : x s = .ok a s') : attempt x s = .ok (.ok a) s' := by
  have hmap : (Except.ok <$> x : EStateM FileFault σ (Except FileFault α)) s = .ok (.ok a) s' := by
    show EStateM.map Except.ok x s = _
    unfold EStateM.map
    rw [h]
  show EStateM.tryCatch (Except.ok <$> x) _ s = _
  unfold EStateM.tryCatch
  simp only [hmap]

theorem attempt_of_error {e : FileFault} (h : x s = .error e s') :
    attempt x s = .ok (.error e) s' := by
  have hmap : (Except.ok <$> x : EStateM FileFault σ (Except FileFault α)) s = .error e s' := by
    show EStateM.map Except.ok x s = _
    unfold EStateM.map
    rw [h]
  show EStateM.tryCatch (Except.ok <$> x) _ s = _
  unfold EStateM.tryCatch
  simp only [hmap]
  rfl

end
end WireCodec
