import WireCodec.Proofs.Agreement
import WireCodec.Sample.Blobs
import WireCodec.Sample.Shapes
import WireCodec.Source.Compile

/-!
# The sample types against their schemas

Every type of the shapes and blobs schemas, under the map to dynamic values, reads and writes as
its schema does.

* `Shapes.Point.toValue` and the like   the dynamic values that stand for those of a type;
* `Shapes.agrees_point` and the like    one type after the other, along the layouts;
* `Shapes.ordered_compile`, `Blobs.ordered_compile`   what the sources compile to;
* `compile_agreesWith`                  all types against the schemas compiled from source.
-/

namespace WireCodec.Sample

theorem layout?_of_ordered {s : Schema} {defs : List TypeDef} (h : s.ordered = defs)
    (name : String) : s.layout? name = (defs.foldl Layout.learn []).lookup name := by
  rw [← h]
  rfl

def compileChars (cs : List Char) : Except CompileError Schema := do
  let (cut, unread) := Source.lexemes false cs
  let (tokens, stop) := Source.placeTokens .start cut
  if unread = [] then Source.parse (tokens ++ [⟨"", stop⟩])
  else throw (.parse (.noToken (String.ofList unread)) stop)

theorem compile_eq_compileChars (text : String) :
    Source.compile text = compileChars text.toList := by
  unfold Source.compile Source.tokenize compileChars
  dsimp only
  split
  · rfl
  · rfl

/-! ## Shapes -/

namespace Shapes

def Coord.toValue (c : Coord) : Value :=
  .integer c.value.toInt

def Color.toValue (c : Color) : Value :=
  .label c.label

def Point.toValue (p : Point) : Value :=
  .composite [("color", p.color.toValue), ("x", p.x.toValue), ("y", p.y.toValue)]

def Path.toValue (p : Path) : Value :=
  .variableArray (p.points.map Point.toValue)

def Shape.toValue : Shape → Value
  | .dot point => .group "dot" point.toValue
  | .line path => .group "line" path.toValue

def definitions : List TypeDef := [
  .scalar ⟨"coord", .int32⟩,
  .enumeration ⟨"color", Color.labels, List.cons_ne_nil _ _, by decide, by decide⟩,
  .composite ⟨"point", [⟨"color", "color"⟩, ⟨"x", "coord"⟩, ⟨"y", "coord"⟩], by decide⟩,
  .variableArray ⟨"path", "point", maxPoints, .uint8, by decide, Builtin.isUnsigned_uint8,
    by decide⟩,
  .group ⟨"shape", [⟨"dot", "point"⟩, ⟨"line", "path"⟩], List.cons_ne_nil _ _, by decide,
    by decide⟩]

def coordLayout : Layout :=
  .number "coord" .int32

def colorLayout : Layout :=
  .enumeration "color" Color.labels

def pointLayout : Layout :=
  .composite "point" [("color", colorLayout), ("x", coordLayout), ("y", coordLayout)]

def pathLayout : Layout :=
  .variableArray "path" maxPoints .uint8 pointLayout

def shapeLayout : Layout :=
  .group "shape" [("dot", pointLayout), ("line", pathLayout)]

theorem agrees_coord : coordLayout.Agrees Coord.toValue where
  unpack := by
    show coordLayout.unpack = ((Codec.decode >>= fun n => pure (Coord.mk n)) >>= _)
    rw [bind_assoc]
    exact (Layout.agrees_int32 "coord").unpack
  pack c := (Layout.agrees_int32 "coord").pack c.value

theorem Color.ofOrdinal?_eq_none {n : Nat} (h : n + 3 < 256) :
    ofOrdinal? (UInt8.ofNat (n + 3)) = none := by
  have hn : (UInt8.ofNat (n + 3)).toNat = n + 3 := UInt8.toNat_ofNat_of_lt' h
  unfold ofOrdinal?
  split
  · next h0 => rw [h0] at hn; cases hn
  · next h1 => rw [h1] at hn; cases hn
  · next h2 => rw [h2] at hn; cases hn
  · rfl

theorem agrees_color : colorLayout.Agrees Color.toValue where
  unpack := by
    show (Decoder.readUInt 1 >>= _) = (((Decoder.readUInt 1 >>= _) >>= _) >>= _)
    simp only [bind_assoc, pure_bind]
    refine Decoder.readUInt_bind_congr fun n hn => ?_
    rcases n with _ | _ | _ | n
    · rfl
    · rfl
    · rfl
    · have hordinal : (UInt8.ofNat (n + 3)).toNat = n + 3 := UInt8.toNat_ofNat_of_lt' hn
      rw [Color.ofOrdinal?_eq_none hn, hordinal]
      rfl
  pack c := by
    cases c <;> rfl

theorem agrees_point : pointLayout.Agrees Point.toValue where
  unpack := by
    have hdecode : (Codec.decode : Decoder Point) = (Codec.decode >>= fun color =>
      Codec.decode >>= fun x => Codec.decode >>= fun y => pure ⟨color, x, y⟩) := rfl
    unfold pointLayout
    rw [Layout.unpack, hdecode]
    simp only [Layout.unpackFields, agrees_color.unpack, agrees_coord.unpack, bind_assoc,
      pure_bind]
    rfl
  pack p := by
    have hgiven : checkGiven "point" ["color", "x", "y"] []
      [("color", p.color.toValue), ("x", p.x.toValue), ("y", p.y.toValue)] = .ok () := rfl
    show (Encoder.require (checkGiven "point" ["color", "x", "y"] []
      [("color", p.color.toValue), ("x", p.x.toValue), ("y", p.y.toValue)]) >>= fun _ =>
        colorLayout.pack p.color.toValue >>= fun _ => coordLayout.pack p.x.toValue >>= fun _ =>
          coordLayout.pack p.y.toValue >>= fun _ => pure ()) = _
    rw [hgiven, agrees_color.pack, agrees_coord.pack, agrees_coord.pack]
    show (Codec.encode p.color >>= fun _ => Codec.encode p.x >>= fun _ =>
      (Codec.encode p.y >>= pure)) = _
    rw [bind_pure]
    rfl

theorem agrees_path : pathLayout.Agrees Path.toValue :=
  agrees_point.boundedList (fun _ _ => rfl) Path.bounded (by decide)
    (fun _ hn => UInt8.toNat_ofNat_of_lt' hn) (fun _ => rfl) rfl (fun _ => rfl) rfl

theorem agrees_shape : shapeLayout.Agrees Shape.toValue where
  unpack := by
    show (Decoder.readUInt 1 >>= _) = (((Decoder.readUInt 1 >>= _) >>= _) >>= _)
    simp only [bind_assoc, pure_bind]
    refine Decoder.readUInt_bind_congr fun n hn => ?_
    rcases n with _ | _ | n
    · show (pointLayout.unpack >>= fun point => pure (Value.group "dot" point)) =
        ((Codec.decode >>= fun point => pure (Shape.dot point)) >>= _)
      rw [agrees_point.unpack]
      simp only [bind_assoc, pure_bind]
      rfl
    · show (pathLayout.unpack >>= fun path => pure (Value.group "line" path)) =
        ((Codec.decode >>= fun path => pure (Shape.line path)) >>= _)
      rw [agrees_path.unpack]
      simp only [bind_assoc, pure_bind]
      rfl
    · have htag : (UInt8.ofNat (n + 2)).toNat = n + 2 := UInt8.toNat_ofNat_of_lt' hn
      split
      · next h0 => rw [h0] at htag; cases htag
      · next h1 => rw [h1] at htag; cases htag
      · rw [htag]
        rfl
  pack s := by
    cases s with
    | dot point =>
      show (Encoder.writeUInt 1 0 >>= fun _ => pointLayout.pack point.toValue) = _
      rw [agrees_point.pack]
      rfl
    | line path =>
      show (Encoder.writeUInt 1 1 >>= fun _ => pathLayout.pack path.toValue) = _
      rw [agrees_path.pack]
      rfl

theorem ordered_compile :
    (Source.compile source).map Schema.ordered = .ok (Schema.builtins ++ definitions) := by
  -- The lines are taken apart one by one: the characters of a joined text are slow to compute.
  have htext : source.toList = "\n".toList.intercalate _ := String.toList_intercalate
  rw [compile_eq_compileChars, htext]
  repeat rw [List.map_cons]
  repeat rw [String.toList_ofList]
  decide +kernel

theorem agreesWith_of_ordered {s : Schema} (h : s.ordered = Schema.builtins ++ definitions) :
    s.AgreesWith "coord" Coord.toValue ∧ s.AgreesWith "color" Color.toValue ∧
      s.AgreesWith "point" Point.toValue ∧ s.AgreesWith "path" Path.toValue ∧
      s.AgreesWith "shape" Shape.toValue := by
  have hlayout := layout?_of_ordered h
  refine ⟨agrees_coord.agreesWith ?_, agrees_color.agreesWith ?_, agrees_point.agreesWith ?_,
    agrees_path.agreesWith ?_, agrees_shape.agreesWith ?_⟩
  · exact (hlayout "coord").trans rfl
  · exact (hlayout "color").trans rfl
  · exact (hlayout "point").trans rfl
  · exact (hlayout "path").trans rfl
  · exact (hlayout "shape").trans rfl

end Shapes

/-! ## Blobs -/

namespace Blobs

def Chunk.toValue (c : Chunk) : Value :=
  .fixedArray (c.words.map fun w => .integer w.toNat)

def Blob.toValue (b : Blob) : Value :=
  .variableArray (b.chunks.map Chunk.toValue)

def definitions : List TypeDef := [
  .fixedArray ⟨"chunk", "uint64", chunkSize, by decide⟩,
  .variableArray ⟨"blob", "chunk", maxChunks, .uint32, by decide, by decide, by decide⟩]

def chunkLayout : Layout :=
  .fixedArray "chunk" chunkSize (.number "uint64" .uint64)

def blobLayout : Layout :=
  .variableArray "blob" maxChunks .uint32 chunkLayout

theorem agrees_chunk : chunkLayout.Agrees Chunk.toValue where
  unpack := by
    have hdecode : (Codec.decode : Decoder Chunk) =
      (Decoder.exactly chunkSize Codec.decode >>= fun words => pure ⟨words.1, words.2⟩) := rfl
    unfold chunkLayout
    rw [Layout.unpack, (Layout.agrees_uint64 "uint64").repeated, hdecode]
    simp only [bind_assoc, pure_bind]
    exact Decoder.exactly_bind.symm
  pack c := by
    have hlength : (c.words.map fun w => Value.integer w.toNat).length = chunkSize := by
      rw [List.length_map, c.full]
    unfold chunkLayout Chunk.toValue
    rw [Layout.pack, if_pos hlength]
    exact (Layout.agrees_uint64 "uint64").forM c.words

theorem agrees_blob : blobLayout.Agrees Blob.toValue :=
  agrees_chunk.boundedList (fun _ _ => rfl) Blob.bounded (by decide)
    (fun _ hn => UInt32.toNat_ofNat_of_lt' hn) (fun _ => rfl) rfl (fun _ => rfl) rfl

theorem ordered_compile :
    (Source.compile source).map Schema.ordered = .ok (Schema.builtins ++ definitions) := by
  have htext : source.toList = "\n".toList.intercalate _ := String.toList_intercalate
  rw [compile_eq_compileChars, htext]
  repeat rw [List.map_cons]
  repeat rw [String.toList_ofList]
  decide +kernel

theorem agreesWith_of_ordered {s : Schema} (h : s.ordered = Schema.builtins ++ definitions) :
    s.AgreesWith "chunk" Chunk.toValue ∧ s.AgreesWith "blob" Blob.toValue := by
  have hlayout := layout?_of_ordered h
  refine ⟨agrees_chunk.agreesWith ?_, agrees_blob.agreesWith ?_⟩
  · exact (hlayout "chunk").trans rfl
  · exact (hlayout "blob").trans rfl

end Blobs

/-- The sample schemas compile, and each of their types reads and writes every byte string and
value as the codec of the type does. -/
theorem compile_agreesWith :
    ∃ shapes blobs, Source.compile Shapes.source = .ok shapes ∧
      Source.compile Blobs.source = .ok blobs ∧
      (shapes.AgreesWith "coord" Shapes.Coord.toValue ∧
        shapes.AgreesWith "color" Shapes.Color.toValue ∧
        shapes.AgreesWith "point" Shapes.Point.toValue ∧
        shapes.AgreesWith "path" Shapes.Path.toValue ∧
        shapes.AgreesWith "shape" Shapes.Shape.toValue) ∧
      blobs.AgreesWith "chunk" Blobs.Chunk.toValue ∧
      blobs.AgreesWith "blob" Blobs.Blob.toValue := by
  obtain ⟨shapes, hshapes, hshapesOrdered⟩ := exists_of_map_eq_ok Shapes.ordered_compile
  obtain ⟨blobs, hblobs, hblobsOrdered⟩ := exists_of_map_eq_ok Blobs.ordered_compile
  exact ⟨shapes, blobs, hshapes, hblobs, Shapes.agreesWith_of_ordered hshapesOrdered,
    Blobs.agreesWith_of_ordered hblobsOrdered⟩

end WireCodec.Sample
