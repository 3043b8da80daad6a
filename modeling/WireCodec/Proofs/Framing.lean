import WireCodec.Proofs.Faults
import WireCodec.Proofs.RoundTrip

/-!
# Where an encoding ends

Bytes say themselves where the encoding of a value ends.  A decoder that took some bytes takes the
same ones whatever follows them, and asks for more if any of them are missing.

* `Decoder.StopsShort decode r`   the decoder needs more bytes than are left;
* `Decoder.Frames decode`         what the decoder takes it takes everywhere, and it stops short in
                                  front of every proper part of it;
* `Decoder.Frames.bind`           a cut through a chain falls into one of its links;
* `Layout.frames_unpack`          so decoding frames along every layout;
* `Schema.unpack_prefixFree`      no byte string of a type is a proper part of another, and the
                                  fault says on which side it is wrong.
-/

namespace WireCodec

theorem splitExactly?_eq_none {α : Type} {n : Nat} {xs : List α} (h : xs.length < n) :
    splitExactly? n xs = none := by
  cases hsplit : splitExactly? n xs with
  | none => rfl
  | some pair =>
    obtain ⟨hlength, happend⟩ := splitExactly?_eq_some_iff.1 hsplit
    rw [happend, List.length_append, hlength] at h
    omega

namespace Decoder

variable {α β : Type}

/-- The decoder fails because it needs more bytes than are left. -/
def StopsShort (decode : Decoder α) (r : Reader) : Prop :=
  ∃ needed remaining r',
    decode r = .error (.truncatedBuffer needed remaining) r' ∧ remaining < needed

/-- Whatever the decoder takes, it takes wherever it stands, and no proper part of it is enough. -/
def Frames (decode : Decoder α) : Prop :=
  ∀ r a r', decode r = .ok a r' → ∃ bytes, r.Passes bytes r' ∧ decode.Reads bytes a ∧
    ∀ i k, k < bytes.length → decode.StopsShort ⟨i, bytes.take k⟩

theorem frames_pure (a : α) : (pure a : Decoder α).Frames := by
  intro r b r' h
  obtain ⟨rfl, rfl⟩ := pure_eq_ok_iff.1 h
  refine ⟨[], r.passes_nil, reads_pure a, ?_⟩
  intro i k hk
  cases hk

theorem frames_throw (e : WireError) : (throw e : Decoder α).Frames := by
  intro r a r' h
  cases h

theorem frames_readBytes (len : Nat) : (readBytes len).Frames := by
  intro r bytes r' h
  obtain ⟨rfl, hpasses⟩ := readBytes_eq_ok_iff.1 h
  refine ⟨bytes, hpasses, ?_, ?_⟩
  · intro r r' hpasses
    exact readBytes_eq_ok_iff.2 ⟨rfl, hpasses⟩
  · intro i k hk
    have hshort : (bytes.take k).length < bytes.length := by
      rw [List.length_take]
      omega
    refine ⟨bytes.length, (bytes.take k).length, ⟨i, bytes.take k⟩, ?_, hshort⟩
    unfold readBytes
    rw [splitExactly?_eq_none hshort]
    rfl

theorem StopsShort.bind {decode : Decoder α} {r : Reader} (h : decode.StopsShort r)
    (next : α → Decoder β) : (decode >>= next).StopsShort r := by
  obtain ⟨needed, remaining, r', hrun, hshort⟩ := h
  refine ⟨needed, remaining, r', ?_, hshort⟩
  show EStateM.bind decode next r = _
  unfold EStateM.bind
  rw [hrun]

/-- A decoder that has read its bytes hands over to the next one. -/
theorem StopsShort.of_reads {decode : Decoder α} {next : α → Decoder β} {front back : List UInt8}
    {a : α} {i : Nat} (hfront : decode.Reads front a)
    (hback : (next a).StopsShort ⟨i + front.length, back⟩) :
    (decode >>= next).StopsShort ⟨i, front ++ back⟩ := by
  obtain ⟨needed, remaining, r', hrun, hshort⟩ := hback
  refine ⟨needed, remaining, r', ?_, hshort⟩
  rw [hfront.run_bind next i back]
  exact hrun

theorem Frames.bind {decode : Decoder α} {next : α → Decoder β} (hdecode : decode.Frames)
    (hnext : ∀ a, (next a).Frames) : (decode >>= next).Frames := by
  intro r b r'' h
  obtain ⟨a, r', hrun, hrest⟩ := bind_eq_ok_iff.1 h
  obtain ⟨front, hfront, hreads, hcut⟩ := hdecode r a r' hrun
  obtain ⟨back, hback, hreads', hcut'⟩ := hnext a r' b r'' hrest
  refine ⟨front ++ back, hfront.trans hback, hreads.bind hreads', ?_⟩
  intro i k hk
  rw [List.length_append] at hk
  -- The cut falls into the bytes of the first decoder, or behind them.
  rcases Nat.lt_or_ge k front.length with hinside | hbehind
  · rw [List.take_append_of_le_length (Nat.le_of_lt hinside)]
    exact (hcut i k hinside).bind next
  · have htake : (front ++ back).take k = front ++ back.take (k - front.length) := by
      rw [List.take_append, List.take_of_length_le hbehind]
    rw [htake]
    exact .of_reads hreads (hcut' _ (k - front.length) (by omega))

theorem compositional_frames : Compositional fun _ decode => decode.Frames where
  pure := frames_pure
  throw := fun {_ e} _ => frames_throw e
  readBytes := frames_readBytes
  bind := Frames.bind

/-- A byte string that is accepted as a whole is what the decoder takes, and cannot be cut. -/
theorem Frames.of_readAll {decode : Decoder α} (h : decode.Frames) {typeName : String}
    {bytes : List UInt8} {a : α} (hall : readAll typeName decode bytes = .ok a) :
    decode.Reads bytes a ∧ ∀ i k, k < bytes.length → decode.StopsShort ⟨i, bytes.take k⟩ := by
  obtain ⟨r', hrun, hend⟩ := readAll_eq_ok_iff.1 hall
  obtain ⟨taken, hpasses, hreads, hcut⟩ := h _ a r' hrun
  have happend : bytes = taken ++ r'.unread := hpasses.1
  rw [hend, List.append_nil] at happend
  rw [happend]
  exact ⟨hreads, hcut⟩

theorem StopsShort.readAll {decode : Decoder α} {bytes : List UInt8}
    (h : decode.StopsShort (.ofBytes bytes)) (typeName : String) :
    ∃ needed remaining, remaining < needed ∧
      Decoder.readAll typeName decode bytes = .error (.truncatedBuffer needed remaining) := by
  obtain ⟨needed, remaining, r, hrun, hshort⟩ := h
  refine ⟨needed, remaining, hshort, ?_⟩
  unfold Decoder.readAll
  rw [hrun]

theorem Reads.readAll_append {decode : Decoder α} {bytes rest : List UInt8} {a : α}
    (h : decode.Reads bytes a) (hrest : rest ≠ []) (typeName : String) :
    Decoder.readAll typeName decode (bytes ++ rest) =
      .error (.trailingBytes typeName rest.length) := by
  have hleft : rest.length ≠ 0 := fun hzero => hrest (List.length_eq_zero_iff.1 hzero)
  unfold Decoder.readAll Reader.ofBytes
  rw [h.run 0 rest]
  exact if_neg hleft

end Decoder

theorem Layout.frames_unpack (layout : Layout) : layout.unpack.Frames :=
  Decoder.compositional_frames.unpack layout

namespace Schema

theorem frames_unpackFrom (s : Schema) (typeName : String) :
    (s.unpackFrom typeName).Frames := by
  unfold unpackFrom
  split
  · exact Layout.frames_unpack _
  · exact Decoder.frames_throw _

/-- Of a byte string that is accepted as a type, every proper part in front is refused as too short,
and every continuation for the bytes that are left over. -/
theorem unpack_prefixFree {s : Schema} {typeName : String} {bytes : List UInt8} {v : Value}
    (h : s.unpack typeName bytes = .ok v) :
    (∀ k < bytes.length, ∃ needed remaining, remaining < needed ∧
      s.unpack typeName (bytes.take k) = .error (.truncatedBuffer needed remaining)) ∧
    ∀ rest, rest ≠ [] →
      s.unpack typeName (bytes ++ rest) = .error (.trailingBytes typeName rest.length) := by
  obtain ⟨hreads, hcut⟩ := (s.frames_unpackFrom typeName).of_readAll h
  refine ⟨?_, ?_⟩
  · intro k hk
    exact (hcut 0 k hk).readAll typeName
  · intro rest hrest
    exact hreads.readAll_append hrest typeName

open Sample in
theorem unpack_prefixFree_log :
    ∃ s v, Lab.schema = .ok s ∧ s.unpack "log" Lab.logBytes = .ok v ∧
      (∃ needed remaining, remaining < needed ∧
        s.unpack "log" (Lab.logBytes.take 5) = .error (.truncatedBuffer needed remaining)) ∧
      s.unpack "log" (Lab.logBytes ++ [7]) = .error (.trailingBytes "log" 1) := by
  have hrun : Lab.schema.map (fun s => (s.unpack "log" Lab.logBytes).isOk) = .ok true := by
    rfl
  obtain ⟨s, hs, hok⟩ := exists_of_map_eq_ok hrun
  cases hv : s.unpack "log" Lab.logBytes with
  | error e =>
    rw [hv] at hok
    cases hok
  | ok v =>
    obtain ⟨hshort, hlong⟩ := unpack_prefixFree hv
    exact ⟨s, v, hs, hv, hshort 5 (by decide), hlong [7] (List.cons_ne_nil 7 [])⟩

end Schema
end WireCodec
