import WireCodec.Proofs.Numbers
import WireCodec.Proofs.WellFormed

/-!
# What holds along every layout

Encoders and decoders of layouts are put together from few kinds of steps.  What holds of the steps
and is passed on to chains of them holds of every encoder and decoder.

* `WireError.isOfBytes`            the faults that bytes can have;
* `WireError.knowsType`            all faults but that of a missing type;
* `Decoder.Compositional Q`        `Q` holds of reads, results and faults of bytes, and of chains;
* `Decoder.Compositional.unpack`   so it holds of decoding along every layout;
* `Encoder.Compositional Q`        `Q` holds of writes and of faults that know their type, and of
                                   chains;
* `Encoder.Compositional.pack`     so it holds of encoding along every layout.
-/

namespace WireCodec

/-! ## Faults -/

def WireError.isOfBytes : WireError → Bool
  | truncatedBuffer _ _ | range _ _ | length _ _ _ => true
  | invalidEnumerationValue _ _ | invalidVariant _ _ | trailingBytes _ _ => true
  | _ => false

/-- The fault is not that a type is missing. -/
def WireError.knowsType : WireError → Bool
  | unknownType _ => false
  | _ => true

theorem isOfBytes_of_checkSingle {typeName : String} {x : Double} {e : WireError}
    (h : checkSingle typeName x = .error e) : e.isOfBytes = true := by
  unfold checkSingle at h
  split at h
  · cases h
  · cases h
    rfl

theorem isOfBytes_of_checkDouble {typeName : String} {x : Double} {e : WireError}
    (h : checkDouble typeName x = .error e) : e.isOfBytes = true := by
  unfold checkDouble at h
  split at h
  · cases h
    rfl
  · cases h

theorem WireError.knowsType_of_isOfBytes {e : WireError} (h : e.isOfBytes = true) :
    e.knowsType = true := by
  cases e with
  | unknownType name => cases h
  | _ => rfl

theorem knowsType_of_checkGiven {typeName : String} {declared seen : List String}
    {given : List (String × Value)} {e : WireError}
    (h : checkGiven typeName declared seen given = .error e) : e.knowsType = true := by
  induction given generalizing seen with
  | nil => cases h
  | cons field given ih =>
    rw [checkGiven] at h
    split at h
    · cases h
      rfl
    · split at h
      · cases h
        rfl
      · exact ih h

/-! ## Decoding -/

/-- A property of computations that reads, results and faults of bytes have, and that chains inherit
from their links. -/
structure Decoder.Compositional (Q : (α : Type) → Decoder α → Prop) : Prop where
  pure : ∀ {α : Type} (a : α), Q α (pure a)
  throw : ∀ {α : Type} {e : WireError}, e.isOfBytes = true → Q α (throw e)
  readBytes : ∀ len : Nat, Q (List UInt8) (Decoder.readBytes len)
  bind : ∀ {α β : Type} {decode : Decoder α} {next : α → Decoder β},
    Q α decode → (∀ a, Q β (next a)) → Q β (decode >>= next)

namespace Decoder.Compositional

variable {Q : (α : Type) → Decoder α → Prop} (hQ : Compositional Q)
include hQ

theorem bind_pure {α β : Type} {decode : Decoder α} {f : α → β} (h : Q α decode) :
    Q β (decode >>= fun a => Pure.pure (f a)) :=
  hQ.bind h fun a => hQ.pure (f a)

theorem readUInt (width : Nat) : Q Nat (Decoder.readUInt width) :=
  hQ.bind_pure (hQ.readBytes width)

theorem require {check : Except WireError Unit}
    (h : ∀ e, check = .error e → e.isOfBytes = true) : Q Unit (Decoder.require check) := by
  cases check with
  | ok u => exact hQ.pure ()
  | error e => exact hQ.throw (h e rfl)

theorem repeated {α : Type} {decode : Decoder α} (h : Q α decode) (count : Nat) :
    Q (List α) (Decoder.repeated count decode) := by
  induction count with
  | zero => exact hQ.pure []
  | succ count ih =>
    rw [repeated_succ]
    exact hQ.bind h fun _ => hQ.bind_pure ih

theorem unpackNumber (typeName : String) (b : Builtin) :
    Q Value (WireCodec.unpackNumber typeName b) := by
  unfold WireCodec.unpackNumber
  split
  · exact hQ.bind_pure (hQ.bind_pure (hQ.readUInt _))
  · exact hQ.bind_pure (hQ.readUInt _)
  · split
    · refine hQ.bind (hQ.bind_pure (hQ.readUInt 4)) fun x => ?_
      exact hQ.bind (hQ.require fun e he => isOfBytes_of_checkSingle he) fun _ => hQ.pure _
    · refine hQ.bind (hQ.bind_pure (hQ.readUInt 8)) fun x => ?_
      exact hQ.bind (hQ.require fun e he => isOfBytes_of_checkDouble he) fun _ => hQ.pure _

theorem unpackFields {fields : List (String × Layout)} (h : ∀ f ∈ fields, Q Value f.2.unpack) :
    Q (List (String × Value)) (Layout.unpackFields fields) := by
  induction fields with
  | nil => exact hQ.pure []
  | cons f fields ih =>
    rw [List.forall_mem_cons] at h
    rw [Layout.unpackFields]
    exact hQ.bind h.1 fun _ => hQ.bind_pure (ih h.2)

theorem unpackVariant {typeName : String} {tag index : Nat} {variants : List (String × Layout)}
    (h : ∀ f ∈ variants, Q Value f.2.unpack) :
    Q Value (Layout.unpackVariant typeName tag index variants) := by
  induction variants generalizing index with
  | nil =>
    rw [Layout.unpackVariant]
    exact hQ.throw rfl
  | cons f variants ih =>
    rw [List.forall_mem_cons] at h
    cases index with
    | zero =>
      rw [Layout.unpackVariant]
      exact hQ.bind_pure h.1
    | succ index =>
      rw [Layout.unpackVariant]
      exact ih h.2

/-- The decoders of all layouts are put together from reads, results and faults of bytes. -/
theorem unpack (layout : Layout) : Q Value layout.unpack := by
  induction layout using Layout.ind with
  | number name builtin =>
    rw [Layout.unpack]
    exact hQ.unpackNumber name builtin
  | enumeration name labels =>
    rw [Layout.unpack]
    refine hQ.bind (hQ.readUInt _) fun ordinal => ?_
    split
    · exact hQ.pure _
    · exact hQ.throw rfl
  | composite name fields ih =>
    rw [Layout.unpack]
    exact hQ.bind_pure (hQ.unpackFields ih)
  | fixedArray name count element ih =>
    rw [Layout.unpack]
    exact hQ.bind_pure (hQ.repeated ih count)
  | variableArray name max sizeType element ih =>
    rw [Layout.unpack]
    refine hQ.bind (hQ.readUInt _) fun len => ?_
    split
    · exact hQ.bind_pure (hQ.repeated ih len)
    · exact hQ.throw rfl
  | group name variants ih =>
    rw [Layout.unpack]
    exact hQ.bind (hQ.readUInt _) fun tag => hQ.unpackVariant ih

end Decoder.Compositional

/-! ## Encoding -/

/-- A property of encoders that writes and faults that know their type have, and that chains inherit
from their links. -/
structure Encoder.Compositional (Q : Encoder Unit → Prop) : Prop where
  pure : Q (pure ())
  throw : ∀ {e : WireError}, e.knowsType = true → Q (throw e)
  writeUInt : ∀ width n : Nat, Q (Encoder.writeUInt width n)
  chain : ∀ {first second : Encoder Unit}, Q first → Q second → Q (first >>= fun _ => second)

namespace Encoder.Compositional

variable {Q : Encoder Unit → Prop} (hQ : Compositional Q)
include hQ

theorem require {check : Except WireError Unit}
    (h : ∀ e, check = .error e → e.knowsType = true) : Q (Encoder.require check) := by
  cases check with
  | ok u => exact hQ.pure
  | error e => exact hQ.throw (h e rfl)

theorem forM {α : Type} {encode : α → Encoder Unit} (h : ∀ x, Q (encode x)) (xs : List α) :
    Q (xs.forM encode) := by
  induction xs with
  | nil => exact hQ.pure
  | cons x xs ih =>
    show Q (encode x >>= fun _ => xs.forM encode)
    exact hQ.chain (h x) ih

theorem packNumber (typeName : String) (b : Builtin) (v : Value) :
    Q (WireCodec.packNumber typeName b v) := by
  unfold WireCodec.packNumber
  split
  · unfold packInteger
    split
    · exact hQ.writeUInt _ _
    · exact hQ.throw rfl
  · split
    · refine hQ.chain (hQ.require fun e he => ?_) (hQ.writeUInt _ _)
      exact WireError.knowsType_of_isOfBytes (isOfBytes_of_checkSingle he)
    · refine hQ.chain (hQ.require fun e he => ?_) (hQ.writeUInt _ _)
      exact WireError.knowsType_of_isOfBytes (isOfBytes_of_checkDouble he)
  · exact hQ.throw rfl

theorem packFields {typeName : String} {given : List (String × Value)}
    {fields : List (String × Layout)} (h : ∀ f ∈ fields, ∀ v, Q (f.2.pack v)) :
    Q (Layout.packFields typeName given fields) := by
  induction fields with
  | nil => exact hQ.pure
  | cons f fields ih =>
    rw [List.forall_mem_cons] at h
    rw [Layout.packFields]
    split
    · exact hQ.chain (h.1 _) (ih h.2)
    · exact hQ.throw rfl

theorem packVariant {typeName : String} {width : Nat} {variant : String} {payload : Value}
    {index : Nat} {variants : List (String × Layout)}
    (h : ∀ f ∈ variants, ∀ v, Q (f.2.pack v)) :
    Q (Layout.packVariant typeName width variant payload index variants) := by
  induction variants generalizing index with
  | nil => exact hQ.throw rfl
  | cons f variants ih =>
    rw [List.forall_mem_cons] at h
    rw [Layout.packVariant]
    split
    · exact hQ.chain (hQ.writeUInt _ _) (h.1 payload)
    · exact ih h.2

/-- The encoders of all layouts are put together from writes and faults that know their type. -/
theorem pack (layout : Layout) (v : Value) : Q (layout.pack v) := by
  induction layout using Layout.ind generalizing v with
  | number name builtin => exact hQ.packNumber name builtin v
  | enumeration name labels =>
    cases v with
    | label label =>
      rw [Layout.pack]
      split
      · exact hQ.writeUInt _ _
      · exact hQ.throw rfl
    | _ => exact hQ.throw rfl
  | composite name fields ih =>
    cases v with
    | composite given =>
      exact hQ.chain (hQ.require fun e he => knowsType_of_checkGiven he) (hQ.packFields ih)
    | _ => exact hQ.throw rfl
  | fixedArray name count element ih =>
    cases v with
    | fixedArray vs =>
      rw [Layout.pack]
      split
      · exact hQ.forM ih vs
      · exact hQ.throw rfl
    | _ => exact hQ.throw rfl
  | variableArray name max sizeType element ih =>
    cases v with
    | variableArray vs =>
      rw [Layout.pack]
      split
      · exact hQ.chain (hQ.writeUInt _ _) (hQ.forM ih vs)
      · exact hQ.throw rfl
    | _ => exact hQ.throw rfl
  | group name variants ih =>
    cases v with
    | group variant payload => exact hQ.packVariant ih
    | _ => exact hQ.throw rfl

end Encoder.Compositional
end WireCodec
