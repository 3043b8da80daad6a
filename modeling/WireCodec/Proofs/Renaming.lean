import WireCodec.Proofs.Reading
import WireCodec.Schema.Size
import WireCodec.Value.Unpack

/-!
# Numbers under two names

A number is read and written in the same way whatever its type is called.  Only faults tell the name.

* `WireError.Renamed old new`   the same fault, or that of a number under its other name;
* `SameOutcome R x y`           the same result, or faults related by `R`;
* `EndsAlike R x y`             two computations that, on every state, give the same result or faults
                                related by `R`, and leave the same state;
* `Layout.Alike old new`        layouts that read and write alike and have the same sizes;
* `Layout.alike_number`, `Layout.AlikeParts.composite`, `Layout.AlikeParts.group`,
  `Layout.Alike.fixedArray`, `Layout.Alike.variableArray`   each kind of layout inherits this from
                                its parts.
-/

namespace WireCodec

/-! ## Computations that end alike -/

/-- The same fault, or a fault of a number that is reported under its other name. -/
inductive WireError.Renamed (old new : String) : WireError → WireError → Prop
  | same (e : WireError) : Renamed old new e e
  | range (value : String) : Renamed old new (.range old value) (.range new value)
  | typeMismatch (found : ValueKind) :
      Renamed old new (.typeMismatch old found) (.typeMismatch new found)

section
variable {ε σ α β : Type} {R : ε → ε → Prop}

/-- The same result, or faults related by `R`. -/
inductive SameOutcome (R : ε → ε → Prop) : Except ε α → Except ε α → Prop
  | ok (a : α) : SameOutcome R (.ok a) (.ok a)
  | error {e e' : ε} (h : R e e') : SameOutcome R (.error e) (.error e')

theorem SameOutcome.eq_ok_iff {x y : Except ε α} (h : SameOutcome R x y) (a : α) :
    x = .ok a ↔ y = .ok a := by
  cases h with
  | ok b => exact Iff.rfl
  | error h => exact ⟨(fun h => nomatch h), (fun h => nomatch h)⟩

theorem SameOutcome.eq_error {x y : Except ε α} (h : SameOutcome R x y) {e : ε}
    (hx : x = .error e) : ∃ e', y = .error e' ∧ R e e' := by
  cases h with
  | ok b => cases hx
  | error h =>
    cases hx
    exact ⟨_, rfl, h⟩

/-- The same result and state, or faults related by `R` and the same state. -/
inductive SameEnd (R : ε → ε → Prop) : EStateM.Result ε σ α → EStateM.Result ε σ α → Prop
  | ok (a : α) (state : σ) : SameEnd R (.ok a state) (.ok a state)
  | error {e e' : ε} (state : σ) (h : R e e') : SameEnd R (.error e state) (.error e' state)

/-- On every state the computations end in the same way, with faults related by `R`. -/
def EndsAlike (R : ε → ε → Prop) (x y : EStateM ε σ α) : Prop :=
  ∀ state, SameEnd R (x state) (y state)

theorem endsAlike_refl (hR : ∀ e, R e e) (x : EStateM ε σ α) : EndsAlike R x x := by
  intro state
  cases x state with
  | ok a next => exact .ok a next
  | error e next => exact .error next (hR e)

theorem endsAlike_throw {e e' : ε} (h : R e e') :
    EndsAlike R (throw e : EStateM ε σ α) (throw e') :=
  fun state => .error state h

theorem EndsAlike.bind {x y : EStateM ε σ α} {f g : α → EStateM ε σ β} (hx : EndsAlike R x y)
    (hf : ∀ a, EndsAlike R (f a) (g a)) : EndsAlike R (x >>= f) (y >>= g) := by
  intro state
  show SameEnd R (EStateM.bind x f state) (EStateM.bind y g state)
  have hstate := hx state
  unfold EStateM.bind
  generalize x state = first at hstate
  generalize y state = second at hstate
  cases hstate with
  | ok a next => exact hf a next
  | error next h => exact .error next h

theorem endsAlike_forM {encode encode' : α → EStateM ε σ PUnit} (hR : ∀ e, R e e)
    (h : ∀ x, EndsAlike R (encode x) (encode' x)) (xs : List α) :
    EndsAlike R (xs.forM encode) (xs.forM encode') := by
  induction xs with
  | nil => exact endsAlike_refl hR _
  | cons x xs ih => exact (h x).bind fun _ => ih

end

section
variable {R : WireError → WireError → Prop}

theorem EndsAlike.bytesOf {encode encode' : Encoder Unit} (h : EndsAlike R encode encode') :
    SameOutcome R (Encoder.bytesOf encode) (Encoder.bytesOf encode') := by
  have hrun := h Writer.empty
  unfold Encoder.bytesOf
  generalize encode Writer.empty = first at hrun
  generalize encode' Writer.empty = second at hrun
  cases hrun with
  | ok u w => exact .ok _
  | error w h => exact .error h

theorem EndsAlike.readAll {α : Type} {decode decode' : Decoder α} (hR : ∀ e, R e e)
    (h : EndsAlike R decode decode') (typeName : String) (bytes : List UInt8) :
    SameOutcome R (Decoder.readAll typeName decode bytes)
      (Decoder.readAll typeName decode' bytes) := by
  have hrun := h (.ofBytes bytes)
  unfold Decoder.readAll
  generalize decode (.ofBytes bytes) = first at hrun
  generalize decode' (.ofBytes bytes) = second at hrun
  cases hrun with
  | ok a r =>
    show SameOutcome R (if r.remaining = 0 then .ok a else _)
      (if r.remaining = 0 then .ok a else _)
    split
    · exact .ok a
    · exact .error (hR _)
  | error r h => exact .error h

theorem EndsAlike.repeated {α : Type} {decode decode' : Decoder α} (hR : ∀ e, R e e)
    (h : EndsAlike R decode decode') (count : Nat) :
    EndsAlike R (Decoder.repeated count decode) (Decoder.repeated count decode') := by
  induction count with
  | zero => exact endsAlike_refl hR _
  | succ count ih =>
    rw [Decoder.repeated_succ, Decoder.repeated_succ]
    exact h.bind fun _ => ih.bind fun _ => endsAlike_refl hR _

theorem endsAlike_encoder_require {c c' : Except WireError Unit} (h : SameOutcome R c c') :
    EndsAlike R (Encoder.require c) (Encoder.require c') := by
  cases h with
  | ok u => exact fun state => .ok () state
  | error h => exact endsAlike_throw h

theorem endsAlike_decoder_require {c c' : Except WireError Unit} (h : SameOutcome R c c') :
    EndsAlike R (Decoder.require c) (Decoder.require c') := by
  cases h with
  | ok u => exact fun state => .ok () state
  | error h => exact endsAlike_throw h

end

/-! ## Numbers under two names -/

section
variable (old new : String)

theorem checkSingle_renamed (x : Double) :
    SameOutcome (WireError.Renamed old new) (checkSingle old x) (checkSingle new x) := by
  unfold checkSingle
  split
  · exact .ok ()
  · exact .error (.range _)

theorem checkDouble_renamed (x : Double) :
    SameOutcome (WireError.Renamed old new) (checkDouble old x) (checkDouble new x) := by
  unfold checkDouble
  split
  · exact .error (.range _)
  · exact .ok ()

theorem packNumber_renamed (b : Builtin) (v : Value) :
    EndsAlike (WireError.Renamed old new) (packNumber old b v) (packNumber new b v) := by
  have hmismatch : EndsAlike (WireError.Renamed old new)
      (throw (.typeMismatch old v.kind) : Encoder Unit) (throw (.typeMismatch new v.kind)) :=
    endsAlike_throw (.typeMismatch v.kind)
  have hwrite : ∀ encode : Encoder Unit, EndsAlike (WireError.Renamed old new) encode encode :=
    endsAlike_refl .same
  unfold packNumber
  cases b.intRange with
  | some range =>
    cases v with
    | integer n =>
      show EndsAlike _ (packInteger old _ range n) (packInteger new _ range n)
      unfold packInteger
      split
      · exact hwrite _
      · exact endsAlike_throw (.range _)
    | _ => exact hmismatch
  | none =>
    cases v with
    | float x =>
      show EndsAlike _ (if b = .float32 then _ else _) (if b = .float32 then _ else _)
      split
      · exact (endsAlike_encoder_require (checkSingle_renamed old new x)).bind fun _ => hwrite _
      · exact (endsAlike_encoder_require (checkDouble_renamed old new x)).bind fun _ => hwrite _
    | _ => exact hmismatch

theorem unpackNumber_renamed (b : Builtin) :
    EndsAlike (WireError.Renamed old new) (unpackNumber old b) (unpackNumber new b) := by
  unfold unpackNumber
  cases b.numeric with
  | signed => exact endsAlike_refl .same _
  | unsigned => exact endsAlike_refl .same _
  | float =>
    show EndsAlike _ (if b = .float32 then _ else _) (if b = .float32 then _ else _)
    split
    · refine (endsAlike_refl .same _).bind fun x => ?_
      exact (endsAlike_decoder_require (checkSingle_renamed old new _)).bind fun _ =>
        endsAlike_refl .same _
    · refine (endsAlike_refl .same _).bind fun x => ?_
      exact (endsAlike_decoder_require (checkDouble_renamed old new x)).bind fun _ =>
        endsAlike_refl .same _

end

/-! ## Layouts -/

namespace Layout

/-- The layouts read and write alike, up to the names `old` and `new` in faults, and have the same
sizes. -/
structure Alike (old new : String) (layout layout' : Layout) : Prop where
  pack : ∀ v, EndsAlike (WireError.Renamed old new) (layout.pack v) (layout'.pack v)
  unpack : EndsAlike (WireError.Renamed old new) layout.unpack layout'.unpack
  encodedSize : layout.encodedSize = layout'.encodedSize
  maxEncodedLength : layout.maxEncodedLength = layout'.maxEncodedLength

variable {old new : String}

theorem alike_refl (layout : Layout) : Alike old new layout layout :=
  ⟨fun _ => endsAlike_refl .same _, endsAlike_refl .same _, rfl, rfl⟩

theorem alike_number (b : Builtin) : Alike old new (number old b) (number new b) where
  pack v := by
    rw [pack_number, pack_number]
    exact packNumber_renamed old new b v
  unpack := by
    rw [unpack, unpack]
    exact unpackNumber_renamed old new b
  encodedSize := by rw [encodedSize, encodedSize]
  maxEncodedLength := by rw [maxEncodedLength, maxEncodedLength]

def AlikeParts (old new : String) : List (String × Layout) → List (String × Layout) → Prop :=
  List.Forall₂ fun f f' => f.1 = f'.1 ∧ f.2.Alike old new f'.2

section
variable {parts parts' : List (String × Layout)} (h : AlikeParts old new parts parts')
include h

theorem AlikeParts.map_fst : parts.map Prod.fst = parts'.map Prod.fst := by
  induction h with
  | nil => rfl
  | cons hf _ ih => rw [List.map_cons, List.map_cons, hf.1, ih]

theorem AlikeParts.packFields (typeName : String) (given : List (String × Value)) :
    EndsAlike (WireError.Renamed old new) (packFields typeName given parts)
      (packFields typeName given parts') := by
  induction h with
  | nil => exact endsAlike_refl .same _
  | @cons f f' parts parts' hf _ ih =>
    obtain ⟨name, layout⟩ := f
    obtain ⟨name', layout'⟩ := f'
    obtain ⟨rfl, halike⟩ : name = name' ∧ layout.Alike old new layout' := hf
    rw [Layout.packFields, Layout.packFields]
    cases given.lookup name with
    | some v => exact (halike.pack v).bind fun _ => ih
    | none => exact endsAlike_throw (.same _)

theorem AlikeParts.packVariant (typeName : String) (width : Nat) (variant : String)
    (payload : Value) (index : Nat) :
    EndsAlike (WireError.Renamed old new)
      (packVariant typeName width variant payload index parts)
      (packVariant typeName width variant payload index parts') := by
  induction h generalizing index with
  | nil => exact endsAlike_refl .same _
  | @cons f f' parts parts' hf _ ih =>
    obtain ⟨name, layout⟩ := f
    obtain ⟨name', layout'⟩ := f'
    obtain ⟨rfl, halike⟩ : name = name' ∧ layout.Alike old new layout' := hf
    rw [Layout.packVariant, Layout.packVariant]
    split
    · exact (endsAlike_refl .same _).bind fun _ => halike.pack payload
    · exact ih (index + 1)

theorem AlikeParts.unpackFields :
    EndsAlike (WireError.Renamed old new) (unpackFields parts) (unpackFields parts') := by
  induction h with
  | nil => exact endsAlike_refl .same _
  | @cons f f' parts parts' hf _ ih =>
    obtain ⟨name, layout⟩ := f
    obtain ⟨name', layout'⟩ := f'
    obtain ⟨rfl, halike⟩ : name = name' ∧ layout.Alike old new layout' := hf
    rw [Layout.unpackFields, Layout.unpackFields]
    exact halike.unpack.bind fun _ => ih.bind fun _ => endsAlike_refl .same _

theorem AlikeParts.unpackVariant (typeName : String) (tag index : Nat) :
    EndsAlike (WireError.Renamed old new) (unpackVariant typeName tag index parts)
      (unpackVariant typeName tag index parts') := by
  induction h generalizing index with
  | nil => exact endsAlike_refl .same _
  | @cons f f' parts parts' hf _ ih =>
    obtain ⟨name, layout⟩ := f
    obtain ⟨name', layout'⟩ := f'
    obtain ⟨rfl, halike⟩ : name = name' ∧ layout.Alike old new layout' := hf
    cases index with
    | zero =>
      rw [Layout.unpackVariant, Layout.unpackVariant]
      exact halike.unpack.bind fun _ => endsAlike_refl .same _
    | succ index =>
      rw [Layout.unpackVariant, Layout.unpackVariant]
      exact ih index

theorem AlikeParts.encodedSizeFields (total : Nat) :
    encodedSizeFields total parts = encodedSizeFields total parts' := by
  induction h generalizing total with
  | nil => rfl
  | @cons f f' parts parts' hf _ ih =>
    rw [Layout.encodedSizeFields, Layout.encodedSizeFields, hf.2.encodedSize]
    cases f'.2.encodedSize with
    | fixed n => exact ih _
    | varying => rfl

theorem AlikeParts.sumMaxLengths (total : Nat) :
    sumMaxLengths total parts = sumMaxLengths total parts' := by
  induction h generalizing total with
  | nil => rfl
  | cons hf _ ih => rw [Layout.sumMaxLengths, Layout.sumMaxLengths, hf.2.maxEncodedLength, ih]

theorem AlikeParts.greatestMaxLength (best : Nat) :
    greatestMaxLength best parts = greatestMaxLength best parts' := by
  induction h generalizing best with
  | nil => rfl
  | cons hf _ ih =>
    rw [Layout.greatestMaxLength, Layout.greatestMaxLength, hf.2.maxEncodedLength, ih]

theorem AlikeParts.composite (typeName : String) :
    Alike old new (composite typeName parts) (composite typeName parts') where
  pack v := by
    cases v with
    | composite given =>
      rw [pack, pack, h.map_fst]
      exact (endsAlike_refl .same _).bind fun _ => h.packFields typeName given
    | _ => exact endsAlike_throw (.same _)
  unpack := by
    rw [unpack, unpack]
    exact h.unpackFields.bind fun _ => endsAlike_refl .same _
  encodedSize := by rw [encodedSize, encodedSize, h.encodedSizeFields]
  maxEncodedLength := by rw [maxEncodedLength, maxEncodedLength, h.sumMaxLengths]

theorem AlikeParts.group (typeName : String) :
    Alike old new (group typeName parts) (group typeName parts') where
  pack v := by
    cases v with
    | group variant payload =>
      rw [pack, pack, h.length_eq]
      exact h.packVariant typeName _ variant payload 0
    | _ => exact endsAlike_throw (.same _)
  unpack := by
    rw [unpack, unpack, h.length_eq]
    exact (endsAlike_refl .same _).bind fun tag => h.unpackVariant typeName tag tag
  encodedSize := by rw [encodedSize, encodedSize]
  maxEncodedLength := by
    rw [maxEncodedLength, maxEncodedLength, h.length_eq, h.greatestMaxLength]

end

section
variable {element element' : Layout} (h : Alike old new element element')
include h

theorem Alike.fixedArray (typeName : String) (count : Nat) :
    Alike old new (fixedArray typeName count element) (fixedArray typeName count element') where
  pack v := by
    cases v with
    | fixedArray vs =>
      rw [Layout.pack, Layout.pack]
      split
      · exact endsAlike_forM .same h.pack vs
      · exact endsAlike_throw (.same _)
    | _ => exact endsAlike_throw (.same _)
  unpack := by
    rw [Layout.unpack, Layout.unpack]
    exact (h.unpack.repeated .same count).bind fun _ => endsAlike_refl .same _
  encodedSize := by rw [Layout.encodedSize, Layout.encodedSize, h.encodedSize]
  maxEncodedLength := by
    rw [Layout.maxEncodedLength, Layout.maxEncodedLength, h.maxEncodedLength]

theorem Alike.variableArray (typeName : String) (max : Nat) (sizeType : Builtin) :
    Alike old new (variableArray typeName max sizeType element)
      (variableArray typeName max sizeType element') where
  pack v := by
    cases v with
    | variableArray vs =>
      rw [Layout.pack, Layout.pack]
      split
      · exact (endsAlike_refl .same _).bind fun _ => endsAlike_forM .same h.pack vs
      · exact endsAlike_throw (.same _)
    | _ => exact endsAlike_throw (.same _)
  unpack := by
    rw [Layout.unpack, Layout.unpack]
    refine (endsAlike_refl .same _).bind fun len => ?_
    split
    · exact (h.unpack.repeated .same len).bind fun _ => endsAlike_refl .same _
    · exact endsAlike_throw (.same _)
  encodedSize := by rw [Layout.encodedSize, Layout.encodedSize]
  maxEncodedLength := by
    rw [Layout.maxEncodedLength, Layout.maxEncodedLength, h.maxEncodedLength]

end

end Layout
end WireCodec
