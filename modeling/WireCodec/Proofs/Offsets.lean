import Mathlib.Data.List.Basic
import WireCodec.Source.Token

/-!
# Lines, columns and byte offsets

The place of a token is kept by steps of one character.  It is the line and column of a byte
offset: lines are ended by newline bytes, and columns count bytes, both from one.

* `Position.atOffset text o`   the line and column of a byte offset, read off the bytes;
* `advance_start`              going on character by character leads to the same;
* `atOffset_utf8ByteSize`      so the place behind a piece of text is that of the offset where it
                               ends.
-/

namespace WireCodec.Source

/-- The place behind bytes: one more than the newlines among them, and one more than the bytes
behind the last newline. -/
def Position.behind (bytes : List UInt8) : Position where
  line := 1 + bytes.count 10
  column := 1 + (bytes.reverse.takeWhile (· ≠ 10)).length

def Position.atOffset (text : String) (offset : Nat) : Position :=
  .behind (text.toByteArray.data.toList.take offset)

/-! ## Newlines among bytes -/

theorem utf8EncodeChar_newline : String.utf8EncodeChar '\n' = [10] := by
  decide

/-- The byte of a newline stands in the encoding of no other character: bytes above ASCII are not
below 128. -/
theorem ne_newline_of_mem {c : Char} (hc : c ≠ '\n') : ∀ b ∈ String.utf8EncodeChar c, b ≠ 10 := by
  have hval : c.val.toNat ≠ 10 := fun h => hc (Char.toNat_inj.1 h)
  have hbyte : ∀ n : Nat, n < 256 → n ≠ 10 → UInt8.ofNat n ≠ 10 := by
    intro n hn hne heq
    have htoNat : (UInt8.ofNat n).toNat = 10 := congrArg UInt8.toNat heq
    rw [UInt8.toNat_ofNat', Nat.mod_eq_of_lt hn] at htoNat
    exact hne htoNat
  intro b hb
  change b ∈ (if c.val.toNat ≤ 127 then _ else if c.val.toNat ≤ 2047 then _ else
    if c.val.toNat ≤ 65535 then _ else _) at hb
  split at hb
  · rw [List.mem_singleton] at hb
    rw [hb]
    exact hbyte _ (by omega) hval
  split at hb
  · simp only [List.mem_cons, List.not_mem_nil, or_false] at hb
    rcases hb with rfl | rfl <;> exact hbyte _ (by omega) (by omega)
  split at hb
  · simp only [List.mem_cons, List.not_mem_nil, or_false] at hb
    rcases hb with rfl | rfl | rfl <;> exact hbyte _ (by omega) (by omega)
  · simp only [List.mem_cons, List.not_mem_nil, or_false] at hb
    rcases hb with rfl | rfl | rfl | rfl <;> exact hbyte _ (by omega) (by omega)

/-! ## Going on by one character -/

theorem behind_append_newline (bytes : List UInt8) :
    Position.behind (bytes ++ [10]) = ⟨(Position.behind bytes).line + 1, 1⟩ := by
  have hcount : (bytes ++ [10]).count 10 = bytes.count 10 + 1 := by simp
  have hlast : ((bytes ++ [10]).reverse.takeWhile (· ≠ 10)).length = 0 := by simp
  simp only [Position.behind, hcount, hlast, Position.mk.injEq, and_true]
  omega

theorem behind_append_of_ne {bytes more : List UInt8} (h : ∀ b ∈ more, b ≠ 10) :
    Position.behind (bytes ++ more) =
      ⟨(Position.behind bytes).line, (Position.behind bytes).column + more.length⟩ := by
  have hcount : (bytes ++ more).count 10 = bytes.count 10 := by
    have hnone : more.count 10 = 0 := List.count_eq_zero.2 fun hmem => h 10 hmem rfl
    rw [List.count_append, hnone, Nat.add_zero]
  have hlast : ((bytes ++ more).reverse.takeWhile (· ≠ 10)).length =
      (bytes.reverse.takeWhile (· ≠ 10)).length + more.length := by
    rw [List.reverse_append, List.takeWhile_append_of_pos, List.length_append, List.length_reverse,
      Nat.add_comm]
    intro b hb
    exact decide_eq_true (h b (List.mem_reverse.1 hb))
  simp only [Position.behind, hcount, hlast, Position.mk.injEq, true_and]
  omega

theorem next_behind (bytes : List UInt8) (c : Char) :
    (Position.behind bytes).next c = .behind (bytes ++ String.utf8EncodeChar c) := by
  unfold Position.next
  by_cases hc : c = '\n'
  · rw [if_pos hc, hc, utf8EncodeChar_newline, behind_append_newline]
  · rw [if_neg hc, behind_append_of_ne (ne_newline_of_mem hc), String.length_utf8EncodeChar]

/-- From the start of a text, the place behind a piece is that behind its bytes. -/
theorem advance_start (cs : List Char) :
    Position.start.advance cs = .behind (cs.flatMap String.utf8EncodeChar) := by
  have hgeneral : ∀ bytes, (Position.behind bytes).advance cs =
      .behind (bytes ++ cs.flatMap String.utf8EncodeChar) := by
    induction cs with
    | nil =>
      intro bytes
      rw [List.flatMap_nil, List.append_nil]
      rfl
    | cons c cs ih =>
      intro bytes
      show ((Position.behind bytes).next c).advance cs = _
      rw [next_behind, ih, List.flatMap_cons, List.append_assoc]
  exact hgeneral []

/-! ## Offsets of pieces of a text -/

section
variable {text : String} {front back : List Char}

theorem bytes_eq_flatMap (text : String) :
    text.toByteArray.data.toList = text.toList.flatMap String.utf8EncodeChar := by
  conv_lhs => rw [← String.ofList_toList (s := text)]
  rw [String.toByteArray_ofList]
  show (List.toByteArray _).data.toList = _
  rw [List.data_toByteArray]

theorem utf8ByteSize_eq_length (cs : List Char) :
    (String.ofList cs).utf8ByteSize = (cs.flatMap String.utf8EncodeChar).length := by
  have hbytes := bytes_eq_flatMap (String.ofList cs)
  rw [String.toList_ofList] at hbytes
  rw [← hbytes]
  rfl

/-- The offset behind the front of a text has the place that is reached there. -/
theorem atOffset_utf8ByteSize (h : text.toList = front ++ back) :
    Position.atOffset text (String.ofList front).utf8ByteSize = Position.start.advance front := by
  unfold Position.atOffset
  rw [bytes_eq_flatMap, h, List.flatMap_append, utf8ByteSize_eq_length, List.take_left,
    advance_start]

end
end WireCodec.Source
