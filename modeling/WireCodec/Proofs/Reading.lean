import Mathlib.Data.List.Forall2
import WireCodec.Wire.Reader

/-!
# What decoders read

* `Reader.Passes r bytes r'`       `r'` is the reader `r` behind `bytes`;
* `Decoder.Reads decode bytes a`   wherever `bytes` stand in front of the reader, the decoder
                                   takes exactly them and gives `a`;
* `reads_repeated`                 entries one after the other;
* `repeated_succ`                  `repeated` without its list of entries already read;
* `readBytes_eq_ok_iff`, `bind_eq_ok_iff`   a successful run taken apart.
-/

namespace WireCodec

/-- The reader `r'` stands behind `bytes`, which are the next ones for `r`. -/
def Reader.Passes (r : Reader) (bytes : List UInt8) (r' : Reader) : Prop :=
  r.unread = bytes ++ r'.unread ∧ r'.index = r.index + bytes.length

namespace Reader

theorem passes_nil (r : Reader) : r.Passes [] r :=
  ⟨rfl, rfl⟩

theorem eq_of_passes_nil {r r' : Reader} (h : r.Passes [] r') : r' = r := by
  obtain ⟨i, unread⟩ := r
  obtain ⟨j, unread'⟩ := r'
  obtain ⟨hunread, hindex⟩ := h
  cases hunread
  cases hindex
  rfl

theorem Passes.trans {r r' r'' : Reader} {a b : List UInt8} (h : r.Passes a r')
    (h' : r'.Passes b r'') : r.Passes (a ++ b) r'' := by
  refine ⟨?_, ?_⟩
  · rw [h.1, h'.1, List.append_assoc]
  · rw [h'.2, h.2, List.length_append, Nat.add_assoc]

theorem Passes.split {r r'' : Reader} {a b : List UInt8} (h : r.Passes (a ++ b) r'') :
    ∃ r', r.Passes a r' ∧ r'.Passes b r'' := by
  refine ⟨⟨r.index + a.length, b ++ r''.unread⟩, ⟨?_, rfl⟩, ⟨rfl, ?_⟩⟩
  · rw [h.1, List.append_assoc]
  · rw [h.2, List.length_append, Nat.add_assoc]

end Reader

theorem splitExactly?_eq_some_iff {α : Type} {n : Nat} {xs front rest : List α} :
    splitExactly? n xs = some (front, rest) ↔ front.length = n ∧ xs = front ++ rest := by
  induction n generalizing xs front with
  | zero =>
    simp only [splitExactly?, Option.some.injEq, Prod.mk.injEq, List.length_eq_zero_iff]
    refine ⟨?_, ?_⟩
    · intro hr
      obtain ⟨rfl, rfl⟩ := hr
      exact ⟨rfl, rfl⟩
    · intro hr
      obtain ⟨rfl, rfl⟩ := hr
      exact ⟨rfl, rfl⟩
  | succ n ih =>
    cases xs with
    | nil =>
      refine ⟨(fun h => nomatch h), ?_⟩
      intro hr
      obtain ⟨hlength, hfront⟩ := hr
      have hnil : front = [] := (List.append_eq_nil_iff.1 hfront.symm).1
      rw [hnil] at hlength
      cases hlength
    | cons x xs =>
      rw [splitExactly?]
      refine ⟨?_, ?_⟩
      · intro h
        split at h
        · next taken rest' htaken =>
          cases h
          obtain ⟨hlength, rfl⟩ := ih.1 htaken
          exact ⟨by rw [List.length_cons, hlength], rfl⟩
        · cases h
      · intro hr
        obtain ⟨hlength, hxs⟩ := hr
        cases front with
        | nil => cases hlength
        | cons y front =>
          obtain ⟨rfl, hrest⟩ := List.cons.inj hxs
          rw [ih.2 ⟨Nat.succ.inj hlength, hrest⟩]

namespace Decoder

variable {α β : Type}

/-- Wherever `bytes` come next, the decoder takes them and nothing else, and gives `a`. -/
def Reads (decode : Decoder α) (bytes : List UInt8) (a : α) : Prop :=
  ∀ r r' : Reader, r.Passes bytes r' → decode r = .ok a r'

theorem Reads.run {decode : Decoder α} {bytes : List UInt8} {a : α} (h : decode.Reads bytes a)
    (i : Nat) (rest : List UInt8) :
    decode ⟨i, bytes ++ rest⟩ = .ok a ⟨i + bytes.length, rest⟩ :=
  h _ _ ⟨rfl, rfl⟩

/-- What follows a decoder goes on behind the bytes that the decoder reads. -/
theorem Reads.run_bind {decode : Decoder α} {bytes : List UInt8} {a : α}
    (h : decode.Reads bytes a) (next : α → Decoder β) (i : Nat) (rest : List UInt8) :
    (decode >>= next) ⟨i, bytes ++ rest⟩ = next a ⟨i + bytes.length, rest⟩ := by
  show EStateM.bind decode next _ = _
  unfold EStateM.bind
  rw [h.run i rest]

theorem Reads.readAll {decode : Decoder α} {bytes : List UInt8} {a : α}
    (h : decode.Reads bytes a) (typeName : String) :
    readAll typeName decode bytes = .ok a := by
  have hrun := h.run 0 []
  rw [List.append_nil] at hrun
  unfold Decoder.readAll Reader.ofBytes
  rw [hrun]
  rfl

theorem readAll_eq_ok_iff {decode : Decoder α} {typeName : String} {bytes : List UInt8} {a : α} :
    readAll typeName decode bytes = .ok a ↔
      ∃ r, decode (Reader.ofBytes bytes) = .ok a r ∧ r.unread = [] := by
  unfold readAll
  cases hdecode : decode (Reader.ofBytes bytes) with
  | error e r =>
    refine ⟨(fun h => nomatch h), ?_⟩
    intro hright
    obtain ⟨r, h, -⟩ := hright
    cases h
  | ok b r =>
    show (if r.remaining = 0 then Except.ok b else _) = _ ↔ _
    by_cases hr : r.remaining = 0
    · rw [if_pos hr]
      have hunread : r.unread = [] := List.length_eq_zero_iff.1 hr
      refine ⟨?_, ?_⟩
      · intro h
        cases h
        exact ⟨r, rfl, hunread⟩
      · intro hright
        obtain ⟨r', h, -⟩ := hright
        cases h
        rfl
    · rw [if_neg hr]
      refine ⟨(fun h => nomatch h), ?_⟩
      intro hright
      obtain ⟨r', h, hunread⟩ := hright
      cases h
      exact absurd (List.length_eq_zero_iff.2 hunread) hr

/-! ## Runs taken apart -/

theorem bind_eq_ok_iff {decode : Decoder α} {next : α → Decoder β} {r r'' : Reader} {b : β} :
    (decode >>= next) r = .ok b r'' ↔
      ∃ a r', decode r = .ok a r' ∧ next a r' = .ok b r'' := by
  show EStateM.bind decode next r = .ok b r'' ↔ _
  unfold EStateM.bind
  cases h : decode r with
  | error e r' =>
    refine ⟨(fun h => nomatch h), ?_⟩
    intro hr
    obtain ⟨a, r', h, -⟩ := hr
    cases h
  | ok a r' =>
    refine ⟨?_, ?_⟩
    · intro hnext
      exact ⟨a, r', rfl, hnext⟩
    · intro hr
      obtain ⟨a, r', h, hnext⟩ := hr
      cases h
      exact hnext

theorem pure_eq_ok_iff {a b : α} {r r' : Reader} :
    (pure a : Decoder α) r = .ok b r' ↔ a = b ∧ r = r' := by
  show EStateM.Result.ok a r = .ok b r' ↔ _
  refine ⟨?_, ?_⟩
  · intro h
    cases h
    exact ⟨rfl, rfl⟩
  · intro hr
    obtain ⟨rfl, rfl⟩ := hr
    rfl

theorem require_eq_ok_iff {c : Except WireError Unit} {r r' : Reader} :
    require c r = .ok () r' ↔ c = .ok () ∧ r = r' := by
  cases c with
  | ok u =>
    show (pure () : Decoder Unit) r = .ok () r' ↔ _
    rw [pure_eq_ok_iff]
    exact ⟨fun h => ⟨rfl, h.2⟩, fun h => ⟨rfl, h.2⟩⟩
  | error e =>
    refine ⟨(fun h => nomatch h), ?_⟩
    intro hr
    obtain ⟨h, -⟩ := hr
    cases h

theorem readBytes_eq_ok_iff {len : Nat} {bytes : List UInt8} {r r' : Reader} :
    readBytes len r = .ok bytes r' ↔ bytes.length = len ∧ r.Passes bytes r' := by
  unfold readBytes
  cases h : splitExactly? len r.unread with
  | none =>
    refine ⟨(fun h => nomatch h), ?_⟩
    intro hr
    obtain ⟨hlength, hpasses⟩ := hr
    have hsome := splitExactly?_eq_some_iff.2 ⟨hlength, hpasses.1⟩
    rw [h] at hsome
    cases hsome
  | some pair =>
    obtain ⟨front, rest⟩ := pair
    obtain ⟨hlength, hunread⟩ := splitExactly?_eq_some_iff.1 h
    refine ⟨?_, ?_⟩
    · intro h
      cases h
      exact ⟨hlength, hunread, by rw [hlength]⟩
    · intro hr
      obtain ⟨hlength', hunread', hindex⟩ := hr
      obtain ⟨i, unread⟩ := r'
      have happend : front ++ rest = bytes ++ unread := hunread.symm.trans hunread'
      obtain ⟨rfl, rfl⟩ := List.append_inj happend (hlength.trans hlength'.symm)
      rw [hlength] at hindex
      rw [show i = r.index + len from hindex]

theorem readUInt_eq_ok {width n : Nat} {r r' : Reader} (h : readUInt width r = .ok n r') :
    n < twoPow (8 * width) ∧ r.Passes (LittleEndian.toBytes width n) r' := by
  obtain ⟨bytes, mid, hbytes, hpure⟩ := bind_eq_ok_iff.1 h
  obtain ⟨rfl, rfl⟩ := pure_eq_ok_iff.1 hpure
  obtain ⟨rfl, hpasses⟩ := readBytes_eq_ok_iff.1 hbytes
  rw [LittleEndian.toBytes_ofBytes]
  exact ⟨LittleEndian.ofBytes_lt bytes, hpasses⟩

/-! ## Reads put together -/

theorem reads_pure (a : α) : (pure a : Decoder α).Reads [] a := by
  intro r r' h
  rw [Reader.eq_of_passes_nil h]
  rfl

theorem Reads.bind {decode : Decoder α} {next : α → Decoder β} {front back : List UInt8} {a : α}
    {b : β} (hdecode : decode.Reads front a) (hnext : (next a).Reads back b) :
    (decode >>= next).Reads (front ++ back) b := by
  intro r r'' h
  obtain ⟨r', hfront, hback⟩ := h.split
  exact bind_eq_ok_iff.2 ⟨a, r', hdecode r r' hfront, hnext r' r'' hback⟩

theorem Reads.bind_pure {decode : Decoder α} {f : α → β} {bytes : List UInt8} {a : α}
    (h : decode.Reads bytes a) : (decode >>= fun x => pure (f x)).Reads bytes (f a) := by
  rw [← List.append_nil bytes]
  exact h.bind (reads_pure (f a))

theorem reads_require {c : Except WireError Unit} (h : c = .ok ()) : (require c).Reads [] () := by
  rw [h]
  exact reads_pure ()

theorem reads_readUInt {width n : Nat} (h : n < twoPow (8 * width)) :
    (readUInt width).Reads (LittleEndian.toBytes width n) n := by
  intro r r' hpasses
  have hbytes : readBytes width r = .ok (LittleEndian.toBytes width n) r' :=
    readBytes_eq_ok_iff.2 ⟨LittleEndian.length_toBytes width n, hpasses⟩
  refine bind_eq_ok_iff.2 ⟨_, r', hbytes, ?_⟩
  rw [LittleEndian.ofBytes_toBytes, Nat.mod_eq_of_lt h]
  rfl

/-! ## Entries one after the other -/

theorem repeatedAfter_eq (done : List α) (decode : Decoder α) (count : Nat) :
    repeatedAfter done decode count =
      (repeated count decode >>= fun xs => pure (done.reverse ++ xs)) := by
  unfold repeated
  -- The entries already read only ever move to the front of the result, so both sides are
  -- compared for an arbitrary second list of them.
  suffices h : ∀ front back : List α, repeatedAfter (back ++ front) decode count =
      (repeatedAfter back decode count >>= fun xs => pure (front.reverse ++ xs)) from
    h done []
  induction count with
  | zero =>
    intro front back
    simp [repeatedAfter]
  | succ count ih =>
    intro front back
    simp only [repeatedAfter, bind_assoc]
    congr 1
    funext x
    exact ih front (x :: back)

theorem repeated_zero (decode : Decoder α) : repeated 0 decode = pure [] := rfl

theorem repeated_succ (count : Nat) (decode : Decoder α) :
    repeated (count + 1) decode =
      (decode >>= fun x => repeated count decode >>= fun xs => pure (x :: xs)) := by
  show (decode >>= fun x => repeatedAfter [x] decode count) = _
  congr 1
  funext x
  rw [repeatedAfter_eq]
  rfl

theorem reads_repeated {decode : Decoder α} {parts : List (List UInt8)} {xs : List α}
    (h : List.Forall₂ decode.Reads parts xs) :
    (repeated xs.length decode).Reads parts.flatten xs := by
  induction h with
  | nil => exact reads_pure []
  | @cons part x parts xs hpart _ ih =>
    rw [List.length_cons, repeated_succ, List.flatten_cons]
    exact hpart.bind ih.bind_pure

end Decoder
end WireCodec
