import Mathlib.Data.List.Forall2
import WireCodec.Wire.Writer

/-!
# What encoders append

An encoder never looks at the bytes in front of it: it appends the same bytes and ends the same
way on every writer.

* `Emits encode bytes outcome`   the bytes appended and how the encoder ends;
* `Appends encode`               there are such bytes and such an end;
* `bytesOf_then`                 two encoders one after the other: the bytes of the first in
                                 front of those of the second;
* `bytesOf_forM`                 an encoder for each entry of a list.

The module opens with the laws by which a successful result is taken apart.
-/

namespace WireCodec

/-! ## Results -/

theorem except_bind_eq_ok_iff {ε α β : Type} {x : Except ε α} {f : α → Except ε β} {b : β} :
    (x >>= f) = .ok b ↔ ∃ a, x = .ok a ∧ f a = .ok b := by
  cases x with
  | error e =>
    refine ⟨(fun h => nomatch h), ?_⟩
    intro hr
    obtain ⟨a, h, -⟩ := hr
    cases h
  | ok a =>
    refine ⟨?_, ?_⟩
    · intro h
      exact ⟨a, rfl, h⟩
    · intro hr
      obtain ⟨a', h, hb⟩ := hr
      cases h
      exact hb

theorem exists_of_map_eq_ok {ε α β : Type} {x : Except ε α} {f : α → β} {b : β}
    (h : x.map f = .ok b) : ∃ a, x = .ok a ∧ f a = b := by
  cases x with
  | error e => cases h
  | ok a => exact ⟨a, rfl, Except.ok.inj h⟩

theorem eq_ok_of_toOption {ε α : Type} {x : Except ε α} {a : α} (h : x.toOption = some a) :
    x = .ok a := by
  cases x with
  | error e => cases h
  | ok b => exact congrArg Except.ok (Option.some.inj h)

namespace Encoder

/-! ## Bytes and outcome -/

/-- On every writer the encoder appends `bytes` and ends as `outcome` says. -/
def Emits (encode : Encoder Unit) (bytes : List UInt8) (outcome : Except WireError Unit) : Prop :=
  ∀ w : Writer, encode w =
    match outcome with
    | .ok _ => .ok () ⟨w.bytes ++ bytes⟩
    | .error e => .error e ⟨w.bytes ++ bytes⟩

/-- What the encoder appends and how it ends does not depend on the writer. -/
def Appends (encode : Encoder Unit) : Prop :=
  ∃ bytes outcome, encode.Emits bytes outcome

theorem bytesOf_eq_of_emits {encode : Encoder Unit} {bytes : List UInt8}
    {outcome : Except WireError Unit} (h : encode.Emits bytes outcome) :
    bytesOf encode = outcome.map fun _ => bytes := by
  unfold bytesOf
  rw [h Writer.empty]
  cases outcome with
  | ok u => simp [Except.map, Writer.empty]
  | error e => rfl

theorem check_eq_of_emits {encode : Encoder Unit} {bytes : List UInt8}
    {outcome : Except WireError Unit} (h : encode.Emits bytes outcome) :
    check encode = outcome := by
  unfold check
  rw [h Writer.empty]
  cases outcome <;> rfl

/-- An encoder that appends passes its check exactly when it has bytes. -/
theorem check_eq_ok_iff {encode : Encoder Unit} (h : encode.Appends) :
    check encode = .ok () ↔ ∃ bytes, bytesOf encode = .ok bytes := by
  obtain ⟨bytes, outcome, hemits⟩ := h
  rw [check_eq_of_emits hemits, bytesOf_eq_of_emits hemits]
  cases outcome with
  | ok u => exact ⟨fun _ => ⟨bytes, rfl⟩, fun _ => rfl⟩
  | error e =>
    refine ⟨(fun h => nomatch h), ?_⟩
    intro hr
    obtain ⟨bs, hbs⟩ := hr
    cases hbs

/-! ## Steps -/

theorem emits_pure : (pure () : Encoder Unit).Emits [] (.ok ()) := by
  intro w
  simp [pure, EStateM.pure]

theorem emits_throw (e : WireError) : (throw e : Encoder Unit).Emits [] (.error e) := by
  intro w
  show EStateM.Result.error e w = .error e ⟨w.bytes ++ ([] : List UInt8)⟩
  simp

theorem emits_require (c : Except WireError Unit) : (require c).Emits [] c := by
  cases c with
  | ok u => exact emits_pure
  | error e => exact emits_throw e

theorem emits_writeBytes (bytes : List UInt8) : (writeBytes bytes).Emits bytes (.ok ()) := by
  intro w
  rfl

theorem Emits.then {first second : Encoder Unit} {a b : List UInt8}
    {outcome : Except WireError Unit} (hfirst : first.Emits a (.ok ()))
    (hsecond : second.Emits b outcome) :
    (first >>= fun _ => second).Emits (a ++ b) outcome := by
  intro w
  show EStateM.bind first (fun _ => second) w = _
  have happend : (w.bytes ++ a) ++ b = w.bytes ++ (a ++ b) := by
    apply Array.toList_inj.1
    simp
  unfold EStateM.bind
  rw [hfirst w]
  show second ⟨w.bytes ++ a⟩ = _
  rw [hsecond ⟨w.bytes ++ a⟩, happend]

theorem Emits.then_error {first second : Encoder Unit} {a : List UInt8} {e : WireError}
    (hfirst : first.Emits a (.error e)) :
    (first >>= fun _ => second).Emits a (.error e) := by
  intro w
  show EStateM.bind first (fun _ => second) w = _
  unfold EStateM.bind
  rw [hfirst w]

/-! ## Encoders that append -/

theorem appends_pure : (pure () : Encoder Unit).Appends :=
  ⟨_, _, emits_pure⟩

theorem appends_throw (e : WireError) : (throw e : Encoder Unit).Appends :=
  ⟨_, _, emits_throw e⟩

theorem appends_require (c : Except WireError Unit) : (require c).Appends :=
  ⟨_, _, emits_require c⟩

theorem appends_writeBytes (bytes : List UInt8) : (writeBytes bytes).Appends :=
  ⟨_, _, emits_writeBytes bytes⟩

theorem appends_writeUInt (width n : Nat) : (writeUInt width n).Appends :=
  appends_writeBytes _

theorem Appends.then {first second : Encoder Unit} (hfirst : first.Appends)
    (hsecond : second.Appends) : (first >>= fun _ => second).Appends := by
  obtain ⟨a, outcome, ha⟩ := hfirst
  cases outcome with
  | ok u =>
    obtain ⟨b, outcome, hb⟩ := hsecond
    exact ⟨a ++ b, outcome, ha.then hb⟩
  | error e => exact ⟨a, .error e, ha.then_error⟩

theorem appends_forM {α : Type} {encode : α → Encoder Unit} {xs : List α}
    (h : ∀ x ∈ xs, (encode x).Appends) : (xs.forM encode).Appends := by
  induction xs with
  | nil => exact appends_pure
  | cons x xs ih =>
    show (encode x >>= fun _ => xs.forM encode).Appends
    exact (h x List.mem_cons_self).then (ih fun y hy => h y (List.mem_cons_of_mem x hy))

/-! ## Bytes -/

theorem bytesOf_pure : bytesOf (pure () : Encoder Unit) = .ok [] :=
  bytesOf_eq_of_emits emits_pure

theorem bytesOf_throw (e : WireError) : bytesOf (throw e : Encoder Unit) = .error e :=
  bytesOf_eq_of_emits (emits_throw e)

theorem bytesOf_writeUInt (width n : Nat) :
    bytesOf (writeUInt width n) = .ok (LittleEndian.toBytes width n) :=
  bytesOf_eq_of_emits (emits_writeBytes _)

theorem bytesOf_then {first second : Encoder Unit} (hfirst : first.Appends)
    (hsecond : second.Appends) {bytes : List UInt8} :
    bytesOf (first >>= fun _ => second) = .ok bytes ↔
      ∃ a b, bytesOf first = .ok a ∧ bytesOf second = .ok b ∧ bytes = a ++ b := by
  obtain ⟨a, outcome, ha⟩ := hfirst
  cases outcome with
  | error e =>
    rw [bytesOf_eq_of_emits ha, bytesOf_eq_of_emits ha.then_error]
    refine ⟨(fun h => nomatch h), ?_⟩
    intro hr
    obtain ⟨a, b, hfirst, -, -⟩ := hr
    cases hfirst
  | ok u =>
    obtain ⟨b, outcome, hb⟩ := hsecond
    rw [bytesOf_eq_of_emits ha, bytesOf_eq_of_emits hb, bytesOf_eq_of_emits (ha.then hb)]
    cases outcome with
    | error e =>
      refine ⟨(fun h => nomatch h), ?_⟩
      intro hr
      obtain ⟨a, b, -, hsecond, -⟩ := hr
      cases hsecond
    | ok u =>
      refine ⟨?_, ?_⟩
      · intro h
        cases h
        exact ⟨a, b, rfl, rfl, rfl⟩
      · intro hr
        obtain ⟨a, b, hfirst, hsecond, rfl⟩ := hr
        cases hfirst
        cases hsecond
        rfl

theorem bytesOf_require_then {c : Except WireError Unit} {second : Encoder Unit}
    (hsecond : second.Appends) {bytes : List UInt8} :
    bytesOf (require c >>= fun _ => second) = .ok bytes ↔
      c = .ok () ∧ bytesOf second = .ok bytes := by
  rw [bytesOf_then (appends_require c) hsecond, bytesOf_eq_of_emits (emits_require c)]
  refine ⟨?_, ?_⟩
  · intro h
    obtain ⟨a, b, hcheck, hbytes, rfl⟩ := h
    cases c with
    | error e => cases hcheck
    | ok u => cases hcheck; exact ⟨rfl, hbytes⟩
  · intro h
    obtain ⟨rfl, hbytes⟩ := h
    exact ⟨[], bytes, rfl, hbytes, rfl⟩

theorem bytesOf_forM {α : Type} {encode : α → Encoder Unit} {xs : List α}
    (h : ∀ x ∈ xs, (encode x).Appends) {bytes : List UInt8} :
    bytesOf (xs.forM encode) = .ok bytes ↔
      ∃ parts, List.Forall₂ (fun x part => bytesOf (encode x) = .ok part) xs parts ∧
        bytes = parts.flatten := by
  induction xs generalizing bytes with
  | nil =>
    show bytesOf (pure ()) = .ok bytes ↔ _
    rw [bytesOf_pure]
    refine ⟨?_, ?_⟩
    · intro h
      cases h
      exact ⟨[], .nil, rfl⟩
    · intro hr
      obtain ⟨parts, hparts, rfl⟩ := hr
      cases hparts
      rfl
  | cons x xs ih =>
    have hx := h x List.mem_cons_self
    have hxs : ∀ y ∈ xs, (encode y).Appends := fun y hy => h y (List.mem_cons_of_mem x hy)
    show bytesOf (encode x >>= fun _ => xs.forM encode) = .ok bytes ↔ _
    rw [bytesOf_then hx (appends_forM hxs)]
    refine ⟨?_, ?_⟩
    · intro hr
      obtain ⟨a, b, ha, hb, rfl⟩ := hr
      obtain ⟨parts, hparts, rfl⟩ := (ih hxs).1 hb
      exact ⟨a :: parts, .cons ha hparts, rfl⟩
    · intro hr
      obtain ⟨parts, hparts, rfl⟩ := hr
      obtain ⟨a, b, ha, hb, rfl⟩ := List.forall₂_cons_left_iff.1 hparts
      exact ⟨a, b.flatten, ha, (ih hxs).2 ⟨b, hb, rfl⟩, rfl⟩

end Encoder
end WireCodec
