import WireCodec.Proofs.Compositional

/-!
# What can go wrong

Encoding and decoding run along a layout, in which every type is present.  So neither of them ever
misses a type, and decoding fails only for what the bytes say.

* `FailsOnly P x`              every failure of `x` satisfies `P`;
* `Layout.failsOnly_unpack`    decoding has only the faults that bytes can have;
* `Layout.failsOnly_pack`      encoding never misses a type.
-/

namespace WireCodec

/-! ## Failures of computations -/

section
variable {ε σ α β : Type} {P : ε → Prop}

/-- Every failure of the computation satisfies `P`. -/
def FailsOnly (P : ε → Prop) (x : EStateM ε σ α) : Prop :=
  ∀ state e state', x state = .error e state' → P e

theorem failsOnly_pure (a : α) : FailsOnly P (pure a : EStateM ε σ α) := by
  intro state e state' h
  cases h

theorem failsOnly_throw {e : ε} (he : P e) : FailsOnly P (throw e : EStateM ε σ α) := by
  intro state e' state' h
  cases h
  exact he

theorem FailsOnly.bind {x : EStateM ε σ α} {f : α → EStateM ε σ β} (hx : FailsOnly P x)
    (hf : ∀ a, FailsOnly P (f a)) : FailsOnly P (x >>= f) := by
  intro state e state' h
  have hrun : (x >>= f) state = EStateM.bind x f state := rfl
  rw [hrun] at h
  unfold EStateM.bind at h
  cases hstate : x state with
  | ok a mid =>
    rw [hstate] at h
    exact hf a mid e state' h
  | error e' mid =>
    rw [hstate] at h
    cases h
    exact hx state _ _ hstate

end

/-! ## Along layouts -/

theorem Decoder.failsOnly_readBytes (len : Nat) :
    FailsOnly (fun e => e.isOfBytes = true) (readBytes len) := by
  intro r e r' h
  unfold readBytes at h
  split at h
  · cases h
  · cases h
    rfl

theorem Layout.failsOnly_unpack (layout : Layout) :
    FailsOnly (fun e => e.isOfBytes = true) layout.unpack := by
  have hcompositional : Decoder.Compositional fun _ decode =>
      FailsOnly (fun e => e.isOfBytes = true) decode := {
    pure := failsOnly_pure
    throw := fun he => failsOnly_throw he
    readBytes := Decoder.failsOnly_readBytes
    bind := FailsOnly.bind }
  exact hcompositional.unpack layout

theorem Encoder.failsOnly_writeUInt (width n : Nat) :
    FailsOnly (fun e => e.knowsType = true) (writeUInt width n) := by
  intro w e w' h
  cases h

theorem Layout.failsOnly_pack (layout : Layout) (v : Value) :
    FailsOnly (fun e => e.knowsType = true) (layout.pack v) := by
  have hcompositional : Encoder.Compositional fun encode =>
      FailsOnly (fun e => e.knowsType = true) encode := {
    pure := failsOnly_pure ()
    throw := fun he => failsOnly_throw he
    writeUInt := Encoder.failsOnly_writeUInt
    chain := fun hfirst hsecond => hfirst.bind fun _ => hsecond }
  exact hcompositional.pack layout v

end WireCodec
