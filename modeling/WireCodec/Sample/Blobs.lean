import WireCodec.Typed.Number

/-!
# The types of the blobs schema

Arrays whose declared bounds are far beyond any byte string that is ever read.
-/

namespace WireCodec.Sample.Blobs

def schemaName : String := "blobs"

def schemaVersion : String := "1.0.0"

/-- The schema in source form. -/
def source : String := String.intercalate "\n" [
  "// Arrays whose declared bounds dwarf any real buffer.",
  "schema blobs 1.0.0;",
  "",
  "fixed_array chunk uint64[1000];",
  "",
  "variable_array blob chunk[4294967295] uint32;",
  ""]

/-- The number of words of a chunk. -/
def chunkSize : Nat := 1000

/-- The greatest number of chunks of a blob. -/
def maxChunks : Nat := 4294967295

structure Chunk where
  words : List UInt64
  full : words.length = chunkSize
  deriving DecidableEq, Repr

structure Blob where
  chunks : List Chunk
  bounded : chunks.length ≤ maxChunks
  deriving DecidableEq, Repr

/-! ## Construction -/

def Chunk.make? (words : List UInt64) : Except WireError Chunk :=
  if h : words.length = chunkSize then .ok ⟨words, h⟩
  else .error (.length "chunk" words.length chunkSize)

/-- The fault of a blob with too many chunks. -/
def blobTooLong (length : Nat) : WireError :=
  .length "blob" length maxChunks

def Blob.make? (chunks : List Chunk) : Except WireError Blob :=
  if h : chunks.length ≤ maxChunks then .ok ⟨chunks, h⟩
  else .error (blobTooLong chunks.length)

/-! ## Codecs -/

instance : Codec Chunk where
  typeName := "Chunk"
  encode c := c.words.forM Codec.encode
  decode := do
    let ⟨words, h⟩ ← Decoder.exactly chunkSize Codec.decode
    return ⟨words, h⟩

instance : Codec Blob where
  typeName := "Blob"
  encode b := do
    Codec.encode (UInt32.ofNat b.chunks.length)
    b.chunks.forM Codec.encode
  decode := do
    let length : UInt32 ← Codec.decode
    if h : length.toNat ≤ maxChunks then
      let ⟨chunks, hlength⟩ ← Decoder.exactly length.toNat Codec.decode
      return ⟨chunks, hlength ▸ h⟩
    else throw (blobTooLong length.toNat)

/-! ## Text -/

def Chunk.text (c : Chunk) : String :=
  "Chunk([" ++ String.intercalate ", " (c.words.map fun w => toString w.toNat) ++ "])"

def Blob.text (b : Blob) : String :=
  "Blob([" ++ String.intercalate ", " (b.chunks.map Chunk.text) ++ "])"

end WireCodec.Sample.Blobs
