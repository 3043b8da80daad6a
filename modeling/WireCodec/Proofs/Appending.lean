import WireCodec.Proofs.RoundTrip

/-!
# Packing into one writer

Values are packed into a writer that may already hold other bytes.  What a value appends, how
packing it ends and what it leaves behind when it fails half-way depend on the value and its type
only.

* `Encoder.eq_ok_iff_bytesOf`   a run on any writer appends what the encoder writes on its own;
* `Encoder.forM_error`          the first failure ends a run through a list and leaves the writer as
                                it is;
* `Schema.appends_packInto`     packing as a type of a schema appends;
* `Schema.packAll`              values of types, packed one after the other;
* `Schema.packInto_frame`       a writer ends with what it held, followed by the encodings.
-/

namespace WireCodec

namespace Encoder

/-- A run that succeeds appends what the encoder writes on its own. -/
theorem eq_ok_iff_bytesOf {encode : Encoder Unit} (h : encode.Appends) {w w' : Writer} :
    encode w = .ok () w' ↔ ∃ bytes, bytesOf encode = .ok bytes ∧ w' = ⟨w.bytes ++ bytes⟩ := by
  obtain ⟨bytes, outcome, hemits⟩ := h
  rw [hemits w, bytesOf_eq_of_emits hemits]
  cases outcome with
  | ok u =>
    refine ⟨?_, ?_⟩
    · intro hrun
      cases hrun
      exact ⟨bytes, rfl, rfl⟩
    · rintro ⟨_, hbytes, rfl⟩
      cases hbytes
      rfl
  | error e =>
    refine ⟨(fun hrun => nomatch hrun), ?_⟩
    rintro ⟨_, hbytes, -⟩
    cases hbytes

/-- The first failure ends the run: the writer stays as it left it, and nothing behind it runs. -/
theorem forM_error {α : Type} {encode : α → Encoder Unit} {front rest : List α} {x : α}
    {w mid w' : Writer} {e : WireError} (hfront : front.forM encode w = .ok () mid)
    (hx : encode x mid = .error e w') :
    (front ++ x :: rest).forM encode w = .error e w' := by
  induction front generalizing w with
  | nil =>
    cases hfront
    show EStateM.bind (encode x) (fun _ => rest.forM encode) mid = _
    unfold EStateM.bind
    rw [hx]
  | cons y front ih =>
    have hrun : EStateM.bind (encode y) (fun _ => front.forM encode) w = .ok () mid := hfront
    show EStateM.bind (encode y) (fun _ => (front ++ x :: rest).forM encode) w = _
    unfold EStateM.bind at hrun ⊢
    cases hy : encode y w with
    | ok u next =>
      rw [hy] at hrun
      exact ih hrun
    | error e next =>
      rw [hy] at hrun
      cases hrun

end Encoder

namespace Schema

theorem appends_packInto (s : Schema) (typeName : String) (v : Value) :
    (s.packInto typeName v).Appends := by
  unfold packInto
  split
  · exact Layout.appends_pack _ v
  · exact Encoder.appends_throw _

/-- Appends the encodings of values, each as its type, one after the other. -/
def packAll (s : Schema) (items : List (String × Value)) : Encoder Unit :=
  items.forM fun item => s.packInto item.1 item.2

theorem packAll_eq_ok_iff (s : Schema) {items : List (String × Value)} {w w' : Writer} :
    s.packAll items w = .ok () w' ↔
      ∃ parts, List.Forall₂ (fun item part => s.pack item.1 item.2 = .ok part) items parts ∧
        w' = ⟨w.bytes ++ parts.flatten⟩ := by
  have heach : ∀ item ∈ items, (s.packInto item.1 item.2).Appends :=
    fun item _ => s.appends_packInto item.1 item.2
  unfold packAll
  rw [Encoder.eq_ok_iff_bytesOf (Encoder.appends_forM heach)]
  simp only [Encoder.bytesOf_forM heach]
  refine ⟨?_, ?_⟩
  · rintro ⟨_, ⟨parts, hparts, rfl⟩, hw⟩
    exact ⟨parts, hparts, hw⟩
  · rintro ⟨parts, hparts, hw⟩
    exact ⟨_, ⟨parts, hparts, rfl⟩, hw⟩

/-- Packing looks at no byte that a writer holds.  On every writer a value appends the same bytes
and ends in the same way, and where it succeeds these bytes are its encoding.  So values packed one
after the other append their encodings one after the other, up to the first that fails. -/
theorem packInto_frame (s : Schema) :
    (∀ typeName v, ∃ bytes outcome, (s.packInto typeName v).Emits bytes outcome ∧
      s.pack typeName v = outcome.map fun _ => bytes) ∧
    (∀ items w w', s.packAll items w = .ok () w' ↔
      ∃ parts, List.Forall₂ (fun item part => s.pack item.1 item.2 = .ok part) items parts ∧
        w' = ⟨w.bytes ++ parts.flatten⟩) ∧
    ∀ front item rest parts w e w',
      List.Forall₂ (fun item part => s.pack item.1 item.2 = .ok part) front parts →
      s.packInto item.1 item.2 ⟨w.bytes ++ parts.flatten⟩ = .error e w' →
      s.packAll (front ++ item :: rest) w = .error e w' := by
  refine ⟨?_, ?_, ?_⟩
  · intro typeName v
    obtain ⟨bytes, outcome, hemits⟩ := s.appends_packInto typeName v
    exact ⟨bytes, outcome, hemits, Encoder.bytesOf_eq_of_emits hemits⟩
  · intro items w w'
    exact s.packAll_eq_ok_iff
  · intro front item rest parts w e w' hparts hitem
    exact Encoder.forM_error (s.packAll_eq_ok_iff.2 ⟨parts, hparts, rfl⟩) hitem

open Sample in
/-- The second sample of a series lacks a field.  The writer keeps what it held, the number in front
of the series, and the series up to the missing field. -/
theorem packInto_frame_series :
    ∃ s, Lab.schema = .ok s ∧
      s.packAll [("uint16", .integer 258), ("series", .variableArray
          [.composite Lab.sampleFields, .composite [("at", .integer 7)]]), ("uint16", .integer 9)]
        ⟨#[0xFF]⟩ =
      .error (.missingField "sample" "level")
        ⟨#[0xFF, 2, 1, 2, 2, 1, 0, 0, 0xC0, 0x3F, 7, 0]⟩ := by
  have hrun : Lab.schema.map (fun s => (s.pack "uint16" (.integer 258),
      s.packInto "series" (.variableArray
        [.composite Lab.sampleFields, .composite [("at", .integer 7)]]) ⟨#[0xFF, 2, 1]⟩)) =
      .ok (.ok [2, 1], .error (.missingField "sample" "level")
        ⟨#[0xFF, 2, 1, 2, 2, 1, 0, 0, 0xC0, 0x3F, 7, 0]⟩) := by
    rfl
  obtain ⟨s, hs, hpair⟩ := exists_of_map_eq_ok hrun
  obtain ⟨hfront, hitem⟩ := Prod.mk.inj hpair
  obtain ⟨-, -, herror⟩ := packInto_frame s
  exact ⟨s, hs, herror [("uint16", .integer 258)] _ _ [[2, 1]] ⟨#[0xFF]⟩ _ _
    (.cons hfront .nil) hitem⟩

end Schema
end WireCodec
