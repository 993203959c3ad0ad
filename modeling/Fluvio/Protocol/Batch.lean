import Fluvio.Protocol.Record
import Fluvio.Lib.Checksum

/-!
Record batches and record sets (`fluvio-protocol/src/record/batch.rs` and the
`RecordSet` half of `data.rs`).

On the wire a batch is a 12-byte preamble (`base_offset`, `batch_len`), the
45-byte header, a `u32` schema id when attribute bit `0x10` is set, and the
records. The encoder splits the header around the CRC, which covers everything
after it; no decoder checks it. The decoder reads the preamble and the header,
subtracts the header size from `batch_len` in `usize` (which panics below it),
and decodes the records from at most that many bytes, skipping them when none
remain. A record set is an `i32` byte count and its batches; its decoder keeps
the batches decoded before the first failing one and returns `Ok` with them.

Two record types instantiate `Batch<R>`: `MemoryRecords`, a `Vec<Record>`, and
`RawRecords`, whose decoder takes every remaining byte.
-/

namespace Fluvio.Protocol

open Cursor

/-- The checksum of the `crc32c` crate. The batch encoder writes it; no decoder
checks it, so the model takes it as a parameter. -/
class Crc32c where
  crc32c : List UInt8 → UInt32

/-- The concrete runs of this development use the standard CRC-32C. -/
instance Crc32c.castagnoli : Crc32c := ⟨Checksum.crc32c⟩

/-- `BATCH_HEADER_SIZE`: the fixed fields of `BatchHeader`. -/
def batchHeaderSize : Nat := 45

/-- `BATCH_PREAMBLE_SIZE`: `base_offset` and `batch_len`. -/
def batchPreambleSize : Nat := 12

/-- `BATCH_FILE_HEADER_SIZE`. -/
def batchFileHeaderSize : Nat := batchPreambleSize + batchHeaderSize

/-- `size_of::<SchemaId>()`. -/
def schemaIdSize : Nat := 4

/-- `BatchHeader`. -/
structure BatchHeader where
  partitionLeaderEpoch : Int32
  magic : Int8
  crc : UInt32
  attributes : Int16
  lastOffsetDelta : Int32
  firstTimestamp : Int64
  maxTimeStamp : Int64
  producerId : Int64
  producerEpoch : Int16
  firstSequence : Int32
deriving DecidableEq, Repr

/-- `impl Default for BatchHeader`. -/
instance : Inhabited BatchHeader := ⟨⟨-1, 2, 0, 0, -1, -1, -1, -1, -1, -1⟩⟩

/-- `ATTR_SCHEMA_PRESENT`. -/
def attrSchemaPresent : Int16 := 0x10

/-- `BatchHeader::has_schema`. -/
def BatchHeader.hasSchema (h : BatchHeader) : Bool := h.attributes &&& attrSchemaPresent != 0

/-- The derived `decode` of `BatchHeader`: its fields in order. -/
def BatchHeader.decode : Decode BatchHeader := do
  let partitionLeaderEpoch ← (Decoder.decode : Decode Int32)
  let magic ← (Decoder.decode : Decode Int8)
  let crc ← (Decoder.decode : Decode UInt32)
  let attributes ← (Decoder.decode : Decode Int16)
  let lastOffsetDelta ← (Decoder.decode : Decode Int32)
  let firstTimestamp ← (Decoder.decode : Decode Int64)
  let maxTimeStamp ← (Decoder.decode : Decode Int64)
  let producerId ← (Decoder.decode : Decode Int64)
  let producerEpoch ← (Decoder.decode : Decode Int16)
  let firstSequence ← (Decoder.decode : Decode Int32)
  pure ⟨partitionLeaderEpoch, magic, crc, attributes, lastOffsetDelta, firstTimestamp,
    maxTimeStamp, producerId, producerEpoch, firstSequence⟩

instance : Decoder BatchHeader := ⟨BatchHeader.decode⟩

/-- `Batch<R>`. `batch_len` is only read by decoding; `schema_id` is only written
when the header says so. -/
structure Batch (R : Type) where
  baseOffset : Int64
  batchLen : Int32
  header : BatchHeader
  schemaId : UInt32
  records : R
deriving DecidableEq, Repr

/-- The derived `Default` of `Batch`. -/
instance {R : Type} [Inhabited R] : Inhabited (Batch R) := ⟨⟨0, 0, default, 0, default⟩⟩

/-- `MemoryRecords = Vec<Record>`. -/
abbrev MemoryRecords := List (Record RecordData)

/-- `RawRecords(Bytes)`: records kept as the bytes they were read as. -/
structure RawRecords where
  bytes : List UInt8
deriving DecidableEq, Repr, Inhabited

instance : Encoder RawRecords := ⟨fun r => some r.bytes.length, fun r => some r.bytes⟩

/-- `RawRecords::decode`: `buf.copy_to_bytes(buf.remaining())`. -/
def RawRecords.decode : Decode RawRecords := do
  let len ← Decoder.remaining
  let bs ← Decoder.advance len
  pure ⟨bs⟩

instance : Decoder RawRecords := ⟨RawRecords.decode⟩

section Batch

variable {R : Type}

/-- `Batch::records_len`: the record count the header announces. -/
def Batch.recordsLen (b : Batch R) : Nat :=
  if b.header.lastOffsetDelta < 0 then 0 else b.header.lastOffsetDelta.toInt.toNat + 1

/-- `Batch::get_last_offset`. -/
def Batch.getLastOffset (b : Batch R) : Int64 := b.baseOffset + b.header.lastOffsetDelta.toInt64

/-- `Batch::computed_last_offset`: the base offset plus the record count. -/
def Batch.computedLastOffset (b : Batch R) : Int64 := b.baseOffset + Int64.ofNat b.recordsLen

/-- `Batch::calc_batch_len`: the header, the records and the schema id when there
is one, as `i32`. -/
def Batch.calcBatchLen [Encoder R] (b : Batch R) : Option Int32 := do
  let records ← Encoder.writeSize b.records
  let blen :=
    if b.header.hasSchema then batchHeaderSize + records + schemaIdSize
    else batchHeaderSize + records
  pure (Int32.ofNat blen)

/-- `Batch::validate_decoding`. -/
def Batch.validateDecoding [Encoder R] (b : Batch R) : Bool := b.calcBatchLen == some b.batchLen

/-- `Batch::write_size`: the file header and the records. -/
def Batch.writeSize [Encoder R] (b : Batch R) : Option Nat := do
  pure (batchFileHeaderSize + (← Encoder.writeSize b.records))

/-- The part of a batch after the CRC, which the CRC covers: `out` in `Batch::encode`. -/
def Batch.encodeOut [Encoder R] (b : Batch R) : Option (List UInt8) := do
  let h := b.header
  let records ← Encoder.encode b.records
  pure (i16Width.put h.attributes ++ i32Width.put h.lastOffsetDelta ++
    i64Width.put h.firstTimestamp ++ i64Width.put h.maxTimeStamp ++ i64Width.put h.producerId ++
    i16Width.put h.producerEpoch ++ i32Width.put h.firstSequence ++
    (if h.hasSchema then u32Width.put b.schemaId else []) ++ records)

/-- `Batch::encode`: the preamble with `calc_batch_len`, the epoch and magic, the CRC
of `out`, then `out`. -/
def Batch.encode [Crc32c] [Encoder R] (b : Batch R) : Option (List UInt8) := do
  let batchLen ← b.calcBatchLen
  let out ← b.encodeOut
  pure (i64Width.put b.baseOffset ++ i32Width.put batchLen ++
    i32Width.put b.header.partitionLeaderEpoch ++ i8Width.put b.header.magic ++
    u32Width.put (Crc32c.crc32c out) ++ out)

/-- The records of a batch from the bytes `src.take(rec_len)` leaves, skipped when
there are none. -/
def Batch.decodeRecords [Decoder R] [Inhabited R] (recLen : Nat) : Decode R :=
  Decoder.limit recLen do
    if 0 < (← Decoder.remaining) then (Decoder.decode : Decode R) else pure default

/-- `Batch::decode` into `Batch::default()`: `decode_from_file_buf`, the schema id
when flagged, then the records from `batch_len - BATCH_HEADER_SIZE` bytes at most. -/
def Batch.decode [Decoder R] [Inhabited R] : Decode (Batch R) := do
  let baseOffset ← (Decoder.decode : Decode Int64)
  let batchLen ← (Decoder.decode : Decode Int32)
  let header ← BatchHeader.decode
  if header.hasSchema then
    let schemaId ← (Decoder.decode : Decode UInt32)
    let recLen ← usizeSub (Int32.asUsize batchLen) batchHeaderSize
    let recLen ← usizeSub recLen schemaIdSize
    let records ← Batch.decodeRecords recLen
    pure ⟨baseOffset, batchLen, header, schemaId, records⟩
  else
    let recLen ← usizeSub (Int32.asUsize batchLen) batchHeaderSize
    let records ← Batch.decodeRecords recLen
    pure ⟨baseOffset, batchLen, header, 0, records⟩

instance [Crc32c] [Encoder R] : Encoder (Batch R) := ⟨Batch.writeSize, Batch.encode⟩
instance [Decoder R] [Inhabited R] : Decoder (Batch R) := ⟨Batch.decode⟩

end Batch

/-- `RecordSet<R>`. -/
structure RecordSet (R : Type) where
  batches : List (Batch R)
deriving DecidableEq, Repr

section RecordSet

variable {R : Type}

/-- `RecordSet::total_records`. -/
def RecordSet.totalRecords (rs : RecordSet R) : Nat := (rs.batches.map Batch.recordsLen).sum

/-- `RecordSet::write_size`: `fold(4, |sum, val| sum + val.write_size())`. -/
def RecordSet.writeSize [Crc32c] [Encoder R] (rs : RecordSet R) : Option Nat :=
  rs.batches.foldl addWriteSize (some 4)

/-- `RecordSet::encode`: the batches into `out`, then `out.len() as i32` and `out`. -/
def RecordSet.encode [Crc32c] [Encoder R] (rs : RecordSet R) : Option (List UInt8) := do
  let out ← encodeAll rs.batches
  pure (i32Width.put (Int32.ofNat out.length) ++ out)

/-- The batch loop of `RecordSet::decode`, for at most `fuel` more batches: while
bytes remain decode a batch; an `io::Error` ends the loop with `Ok` and the
batches so far. Each batch reads at least its preamble, so the byte count is
enough fuel. -/
def RecordSet.decodeBatches [Decoder R] [Inhabited R] :
    Nat → List (Batch R) → Decode (List (Batch R))
  | 0, acc => pure acc
  | fuel + 1, acc => fun s =>
    if 0 < s.length then
      match Batch.decode s with
      | .ok b rest => decodeBatches fuel (acc ++ [b]) rest
      | .error (.io _ _) rest => .ok acc rest
      | .error (.panic msg) rest => .error (.panic msg) rest
    else .ok acc s

/-- `RecordSet::decode` into an empty set. -/
def RecordSet.decode [Decoder R] [Inhabited R] : Decode (RecordSet R) := do
  let len ← (Decoder.decode : Decode Int32)
  let remaining ← Decoder.remaining
  if remaining < Int32.asUsize len then
    eof s!"expected message len: {len} but found {remaining}"
  else
    let batches ← Decoder.limit (Int32.asUsize len) (decodeBatches (Int32.asUsize len) [])
    pure ⟨batches⟩

instance [Crc32c] [Encoder R] : Encoder (RecordSet R) := ⟨RecordSet.writeSize, RecordSet.encode⟩
instance [Decoder R] [Inhabited R] : Decoder (RecordSet R) := ⟨RecordSet.decode⟩

end RecordSet

end Fluvio.Protocol
