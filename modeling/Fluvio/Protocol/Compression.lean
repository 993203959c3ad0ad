import Fluvio.Protocol.Sizes

/-!
Compressed record batches (`fluvio-compression/src/lib.rs`, and the conversions between
`Batch<MemoryRecords>` and `Batch<RawRecords>` in `fluvio-protocol/src/record/batch.rs`).

A batch goes to `RawRecords` by encoding its records and compressing them with the codec its
header names; it comes back by uncompressing and decoding them (`memory_records`), where a
decoder that runs out of bytes keeps the records read so far. The way back recomputes
`batch_len` without the schema id and resets the schema id to `SCHEMA_ID_NULL`, keeping the
header and so its schema flag.

* `Batch.ofRaw_toRaw` — on a batch whose records the codec carries, the round trip keeps the base
  offset, the header and the records, drops the schema id, and passes `validate_decoding` exactly
  when there is no schema flag;
* `schemaBatch_loses_schemaId` — so a batch with a schema id comes back with schema id 0 and a
  `batch_len` its own header disowns, whatever the codec.

The codec libraries (flate2, snap, lz4_flex, zstd) are a parameter; `Compressor.Lawful` says
that what a codec compresses, it uncompresses back.
-/

namespace Fluvio.Protocol

open Cursor

/-- `Compression`. -/
inductive Compression where
  | none
  | gzip
  | snappy
  | lz4
  | zstd
  deriving DecidableEq, Repr

/-- `CompressionError`: an `io::Error` from decoding (a decoding panic is carried along as the
error it unwinds as), the codec libraries' own errors, and the two of this crate. -/
inductive CompressionError where
  | ioError (err : DecodeError)
  | unreachableError
  | unknownCompressionFormat (msg : String)
  | codecError
  deriving DecidableEq, Repr

/-- `impl TryFrom<i8> for Compression`. -/
def Compression.tryFrom (v : Int8) : Except CompressionError Compression :=
  if v = 0 then .ok .none
  else if v = 1 then .ok .gzip
  else if v = 2 then .ok .snappy
  else if v = 3 then .ok .lz4
  else if v = 4 then .ok .zstd
  else .error (.unknownCompressionFormat s!"i8 representation: {v}")

/-- The codec libraries behind `Compression::compress` and `Compression::uncompress`. -/
class Compressor where
  compress : Compression → List UInt8 → Except CompressionError (List UInt8)
  uncompress : Compression → List UInt8 → Except CompressionError (List UInt8)

/-- What a codec compresses, it uncompresses back. -/
def Compressor.Lawful [Compressor] : Prop :=
  ∀ c src, c ≠ .none → ∃ out, Compressor.compress c src = .ok out ∧ Compressor.uncompress c out = .ok src

/-- `Compression::compress`: `None` copies the bytes. -/
def Compression.compress [Compressor] (c : Compression) (src : List UInt8) :
    Except CompressionError (List UInt8) :=
  match c with
  | .none => .ok src
  | c => Compressor.compress c src

/-- `Compression::uncompress`: nothing for `None`, the uncompressed bytes otherwise. -/
def Compression.uncompress [Compressor] (c : Compression) (src : List UInt8) :
    Except CompressionError (Option (List UInt8)) :=
  match c with
  | .none => .ok Option.none
  | c => (Compressor.uncompress c src).map some

/-- `ATTR_COMPRESSION_CODEC_MASK`. -/
def attrCompressionCodecMask : Int16 := 0x07

/-- `SCHEMA_ID_NULL`. -/
def schemaIdNull : UInt32 := 0

/-- `BatchHeader::get_compression`: the codec bits of the attributes, `as i8`. -/
def BatchHeader.getCompression (h : BatchHeader) : Except CompressionError Compression :=
  Compression.tryFrom (h.attributes &&& attrCompressionCodecMask).toInt8

/-- `compression as i16`: the `#[repr(i8)]` discriminant. -/
def Compression.toInt16 : Compression → Int16
  | .none => 0
  | .gzip => 1
  | .snappy => 2
  | .lz4 => 3
  | .zstd => 4

/-- `BatchHeader::set_compression`: the codec bits replaced by the codec's. -/
def BatchHeader.setCompression (h : BatchHeader) (compression : Compression) : BatchHeader :=
  { h with attributes :=
      (h.attributes &&& ~~~attrCompressionCodecMask) ||| (compression.toInt16 &&& attrCompressionCodecMask) }

/-- Setting the codec bits and masking them again gives the bits set, whatever the others were. -/
theorem codecBits_setCompression (a k : Int16) :
    ((a &&& ~~~attrCompressionCodecMask) ||| (k &&& attrCompressionCodecMask)) &&& attrCompressionCodecMask =
      k &&& attrCompressionCodecMask := by
  apply Int16.toBitVec_inj.mp
  simp only [Int16.toBitVec_and, Int16.toBitVec_or, Int16.toBitVec_not]
  ext i
  simp only [BitVec.getElem_and, BitVec.getElem_or, BitVec.getElem_not]
  cases (attrCompressionCodecMask.toBitVec)[i] <;> simp

/-- `get_compression` reads back what `set_compression` wrote. -/
theorem BatchHeader.getCompression_setCompression (h : BatchHeader) (c : Compression) :
    (h.setCompression c).getCompression = .ok c := by
  simp only [BatchHeader.getCompression, BatchHeader.setCompression, codecBits_setCompression]
  cases c <;> rfl

/-- The `decode` closure of `memory_records`: the records `Vec::decode` pushed, also when it
ran out of bytes; any other error is the conversion's. -/
def memoryRecordsDecode (data : List UInt8) : Except CompressionError MemoryRecords :=
  match (vecDecodeInto data : MemoryRecords × Result DecodeError Unit) with
  | (records, .ok () _) => .ok records
  | (records, .error (.io .unexpectedEof _) _) => .ok records
  | (_, .error err _) => .error (.ioError err)

/-- `Batch<RawRecords>::memory_records`: the records uncompressed with the header's codec, and
decoded. -/
def Batch.memoryRecords [Compressor] (b : Batch RawRecords) :
    Except CompressionError MemoryRecords := do
  match ← b.header.getCompression with
  | .none => memoryRecordsDecode b.records.bytes
  | compression =>
    let decompressed ← compression.uncompress b.records.bytes
    let decompressed ← decompressed.elim (.error .unreachableError) .ok
    memoryRecordsDecode decompressed

/-- `impl TryFrom<Batch> for Batch<RawRecords>`: the records encoded and compressed with the
header's codec, `batch_len` the compressed length; `none` when the encoder does not return. -/
def Batch.toRaw [Compressor] (f : Batch MemoryRecords) :
    Option (Except CompressionError (Batch RawRecords)) := do
  let buf ← Encoder.encode f.records
  pure do
    let compression ← f.header.getCompression
    let compressedRecords ← compression.compress buf
    pure ⟨f.baseOffset, Int32.ofNat compressedRecords.length, f.header, f.schemaId,
      ⟨compressedRecords⟩⟩

/-- `impl TryFrom<Batch<RawRecords>> for Batch`: the records of `memory_records`, `batch_len`
the header and the records `as i32`, and the schema id `SCHEMA_ID_NULL`; `none` when the size
computation does not return. -/
def Batch.ofRaw [Compressor] (batch : Batch RawRecords) :
    Option (Except CompressionError (Batch MemoryRecords)) :=
  match batch.memoryRecords with
  | .error e => some (.error e)
  | .ok records => (Encoder.writeSize records).map fun size =>
    .ok ⟨batch.baseOffset, Int32.ofNat (batchHeaderSize + size), batch.header, schemaIdNull, records⟩

/-! ### The codec -/

section Codec

variable [Compressor]

theorem Compression.compress_of_ne_none {c : Compression} (hc : c ≠ .none) (src : List UInt8) :
    c.compress src = Compressor.compress c src := by
  cases c <;> first | exact absurd rfl hc | rfl

theorem Compression.uncompress_of_ne_none {c : Compression} (hc : c ≠ .none) (src : List UInt8) :
    c.uncompress src = (Compressor.uncompress c src).map some := by
  cases c <;> first | exact absurd rfl hc | rfl

/-- A lawful codec compresses every input. -/
theorem Compression.compress_ok (hlaw : Compressor.Lawful) (c : Compression) (src : List UInt8) :
    ∃ out, c.compress src = .ok out := by
  by_cases hc : c = .none
  · exact ⟨src, by rw [hc]; rfl⟩
  · obtain ⟨out, hout, -⟩ := hlaw c src hc
    exact ⟨out, by rw [Compression.compress_of_ne_none hc, hout]⟩

/-- What a lawful codec other than `None` compressed, it uncompresses back. -/
theorem Compression.uncompress_of_compress (hlaw : Compressor.Lawful) {c : Compression} (hc : c ≠ .none)
    {src out : List UInt8} (h : c.compress src = .ok out) : c.uncompress out = .ok (some src) := by
  obtain ⟨out', hout', hsrc⟩ := hlaw c src hc
  rw [Compression.compress_of_ne_none hc, hout', Except.ok.injEq] at h
  subst h
  rw [Compression.uncompress_of_ne_none hc, hsrc]
  rfl

end Codec

/-! ### Decoding the records -/

theorem vecDecodeInto_of_vecDecode {M : Type} [Decoder M] {s rest : List UInt8} {xs : List M}
    (h : vecDecode s = .ok xs rest) : vecDecodeInto s = (xs, .ok () rest) := by
  rw [vecDecode_apply] at h
  rcases hv : vecDecodeInto (M := M) s with ⟨ys, _ | _⟩
  · rw [hv] at h
    cases h
    rfl
  · rw [hv] at h
    cases h

/-- Records that read back are what the `decode` closure of `memory_records` finds in their
encoding. -/
theorem memoryRecordsDecode_of_readsBack {xs : MemoryRecords} {bs : List UInt8} (hxs : ReadsBack xs)
    (henc : Encoder.encode xs = some bs) (hlen : bs.length < bufferLimit) :
    memoryRecordsDecode bs = .ok xs := by
  have hdec := hxs bs henc [] (by rw [List.append_nil]; exact hlen)
  rw [List.append_nil] at hdec
  simp only [memoryRecordsDecode, vecDecodeInto_of_vecDecode hdec]

section Batch

variable [Compressor]

/-- `memory_records` of bytes the header's codec compressed decodes the bytes it was given. -/
theorem Batch.memoryRecords_of_compress (hlaw : Compressor.Lawful) {b : Batch RawRecords} {c : Compression}
    {src : List UInt8} (hc : b.header.getCompression = .ok c) (hout : c.compress src = .ok b.records.bytes) :
    b.memoryRecords = memoryRecordsDecode src := by
  by_cases hnone : c = .none
  · subst hnone
    cases hout
    simp only [Batch.memoryRecords, hc]
    rfl
  · have hun := Compression.uncompress_of_compress hlaw hnone hout
    -- the match of `memory_records` on the codec: every arm but `None` uncompresses
    cases c <;> first
      | exact absurd rfl hnone
      | simp only [Batch.memoryRecords, hc, bind, Except.bind, hun]; rfl

theorem Batch.toRaw_of_compress {f : Batch MemoryRecords} {c : Compression} {buf out : List UInt8}
    (henc : Encoder.encode f.records = some buf) (hc : f.header.getCompression = .ok c)
    (hout : c.compress buf = .ok out) :
    f.toRaw = some (.ok ⟨f.baseOffset, Int32.ofNat out.length, f.header, f.schemaId, ⟨out⟩⟩) := by
  simp only [Batch.toRaw, henc, hc, bind, Option.bind, Except.bind, hout]
  rfl

theorem Batch.ofRaw_of_memoryRecords {batch : Batch RawRecords} {records : MemoryRecords} {size : Nat}
    (hrec : batch.memoryRecords = .ok records) (hsize : Encoder.writeSize records = some size) :
    batch.ofRaw = some (.ok ⟨batch.baseOffset, Int32.ofNat (batchHeaderSize + size), batch.header,
      schemaIdNull, records⟩) := by
  simp only [Batch.ofRaw, hrec, hsize, Option.map_some]

end Batch

/-- `calc_batch_len` adds four bytes for a schema id, which no `i32` cast wraps away. -/
theorem validateDecoding_of_size {b : Batch MemoryRecords} {size : Nat}
    (hsize : Encoder.writeSize b.records = some size) (hlen : b.batchLen = Int32.ofNat (batchHeaderSize + size)) :
    b.validateDecoding = !b.header.hasSchema := by
  have hcalc := Batch.calcBatchLen_of_size hsize
  cases hs : b.header.hasSchema <;>
    simp [Batch.validateDecoding, hcalc, hlen, Batch.schemaBytes, hs, FixedWidth.length_put]

section RoundTrip

variable [Compressor]

/-- The round trip through `RawRecords` of a batch whose records the codec carries, encoded in
fewer than `2 ^ 31` bytes, under a lawful codec: the raw batch keeps the schema id, the batch it
converts back to has the same base offset, header and records, the schema id `SCHEMA_ID_NULL`,
and passes `validate_decoding` exactly when the header has no schema flag. -/
theorem Batch.ofRaw_toRaw (hlaw : Compressor.Lawful) {b : Batch MemoryRecords} {c : Compression}
    (hc : b.header.getCompression = .ok c) (hfits : ∀ r ∈ b.records, r.Fits)
    (hfit : ∀ bs, Encoder.encode b.records = some bs → bs.length < 2 ^ 31) :
    ∃ raw b', b.toRaw = some (.ok raw) ∧ raw.schemaId = b.schemaId ∧ raw.ofRaw = some (.ok b') ∧
      b'.baseOffset = b.baseOffset ∧ b'.header = b.header ∧ b'.records = b.records ∧
      b'.schemaId = schemaIdNull ∧ b'.validateDecoding = !b.header.hasSchema := by
  obtain ⟨out, -, hrb⟩ := MemoryRecords.encode_eq hfits
  have hlen := hfit _ hrb
  obtain ⟨compressed, hcomp⟩ := Compression.compress_ok hlaw c (u32Width.put (UInt32.ofNat b.records.length) ++ out)
  let raw : Batch RawRecords := ⟨b.baseOffset, Int32.ofNat compressed.length, b.header, b.schemaId,
    ⟨compressed⟩⟩
  have hraw : b.toRaw = some (.ok raw) := Batch.toRaw_of_compress hrb hc hcomp
  -- the raw batch decodes to the records it was made of
  have hrec : raw.memoryRecords = .ok b.records := by
    rw [Batch.memoryRecords_of_compress (b := raw) hlaw hc hcomp]
    exact memoryRecordsDecode_of_readsBack (MemoryRecords.readsBack hfits hrb hlen) hrb
      (by unfold bufferLimit isizeMax; omega)
  have hsize : Encoder.writeSize b.records = some (u32Width.put (UInt32.ofNat b.records.length) ++ out).length := by
    rw [MemoryRecords.sizeAgrees b.records, hrb, Option.map_some]
  refine ⟨raw, _, hraw, rfl, Batch.ofRaw_of_memoryRecords hrec hsize, rfl, rfl, rfl, rfl, ?_⟩
  exact validateDecoding_of_size hsize rfl

/-- The batch of `Sizes` with the schema flag and schema id 1 comes back, under every codec, with
schema id 0 and a `batch_len` that fails `validate_decoding`. -/
theorem schemaBatch_loses_schemaId :
    ∃ raw b', schemaBatch.toRaw = some (.ok raw) ∧ raw.schemaId = schemaBatch.schemaId ∧
      raw.ofRaw = some (.ok b') ∧ b'.schemaId ≠ schemaBatch.schemaId ∧ b'.validateDecoding = false :=
  ⟨_, _, rfl, rfl, rfl, by decide, by decide⟩

end RoundTrip

end Fluvio.Protocol
