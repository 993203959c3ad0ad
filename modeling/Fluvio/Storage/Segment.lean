import Fluvio.Protocol.Sizes

/-!
The active segment of a replica (`fluvio-storage`: `mut_records.rs`, `mut_index.rs`,
`segment.rs`): its log file, the part of its index the write path checks, and
`MutableSegment::append_batch`.

`append_batch` rejects a batch whose header announces no record, sets the batch's
base offset to the segment's end offset and asks the log file to take it. The log
file compares `batch_len as u32 + len` with the segment's size limit in `u32`, then
encodes the batch and asserts that the encoding is `write_size` bytes long, the
equality that `Batch::write_size` breaks on batches with a schema id
(`MutFileRecords.writeBatch_schema_panics`). After a write the index is told the
batch's offset relative to the segment and the end offset moves past the batch's
last offset (`MutableSegment.appendBatch_cases` says everything a call can do).

Offsets are `i64` and are added as such: the model wraps where a debug build would
panic, which takes `2 ^ 63` records.
-/

namespace Fluvio.Storage

open Fluvio.Protocol

/-- `StorageError` and `LogValidationError`, as far as the write path and the
validator return them. -/
inductive StorageError
  | emptyBatch
  | shortCircuited
  | batchExceededSegment (batchSize maxSegmentSize : Nat)
  | batchTooBig (maxRequestSize : Nat)
  | other (msg : String)
  | invalidBaseOffsetMinimum (invalidBatchOffset : Int64)
deriving DecidableEq, Repr

/-- How a call of the write path ends when it does not return a value: with an error it
returns, with a panic, which no caller catches, or never, when the varint loop of an
encoder does not stop. -/
inductive Failure
  | error (e : StorageError)
  | panic (msg : String)
  | diverge
deriving DecidableEq, Repr

/-- The message of `assert_eq!`. -/
def assertEqMessage : String := "assertion `left == right` failed"

/-- `MutFileRecords`: the log file of a segment. `len` is the length of `bytes`. -/
structure MutFileRecords where
  baseOffset : Int64
  bytes : List UInt8
  maxLen : Nat
deriving DecidableEq, Repr

section Write

variable {R : Type} [Crc32c] [Encoder R]

/-- `MutFileRecords::write_batch`: `(written, batch_len, position after)`. -/
def MutFileRecords.writeBatch (log : MutFileRecords) (batch : Batch R) :
    Except Failure (Bool × Nat × Nat) × MutFileRecords :=
  if batch.baseOffset < log.baseOffset then
    (.error (.error (.invalidBaseOffsetMinimum batch.baseOffset)), log)
  else
    match Encoder.writeSize batch with
    | none => (.error .diverge, log)
    | some batchLen =>
      -- `batch_len as u32 + self.len`, an addition of two `u32`
      if 2 ^ 32 ≤ batchLen % 2 ^ 32 + log.bytes.length then
        (.error (.panic "attempt to add with overflow"), log)
      else if log.maxLen < batchLen % 2 ^ 32 + log.bytes.length then
        (.ok (false, batchLen, log.bytes.length), log)
      else
        match Encoder.encode batch with
        | none => (.error .diverge, log)
        | some buffer =>
          if buffer.length = batchLen then
            (.ok (true, batchLen, (log.bytes ++ buffer).length), { log with bytes := log.bytes ++ buffer })
          else (.error (.panic assertEqMessage), log)

end Write

/-- `MutLogIndex`, as far as `write_index` checks it: the last relative offset written. -/
structure MutLogIndex where
  lastOffsetDelta : Nat
deriving DecidableEq, Repr

/-- `MutLogIndex::write_index`: relative offsets must grow, and only the first may be zero. The
sparse entries it writes are not modelled. -/
def MutLogIndex.writeIndex (index : MutLogIndex) (offsetDelta : Nat) : Except Failure Unit × MutLogIndex :=
  if 0 < offsetDelta then
    if index.lastOffsetDelta < offsetDelta then (.ok (), ⟨offsetDelta⟩)
    else (.error (.panic "assertion failed: offset_delta > self.last_offset_delta"), index)
  else if index.lastOffsetDelta = 0 then (.ok (), ⟨offsetDelta⟩)
  else (.error (.panic assertEqMessage), index)

/-- `MutableSegment`. -/
structure MutableSegment where
  baseOffset : Int64
  endOffset : Int64
  msgLog : MutFileRecords
  index : MutLogIndex
deriving DecidableEq, Repr

/-- `MutableSegment::create`: an empty log and index at `base_offset`. -/
def MutableSegment.create (baseOffset : Int64) (segmentMaxBytes : Nat) : MutableSegment :=
  ⟨baseOffset, baseOffset, ⟨baseOffset, [], segmentMaxBytes⟩, ⟨0⟩⟩

section Append

variable {R : Type} [Crc32c] [Encoder R]

/-- `MutableSegment::append_batch`: whether the batch fit, the segment, and the batch with
its base offset set. -/
def MutableSegment.appendBatch (seg : MutableSegment) (batch : Batch R) :
    Except Failure Bool × MutableSegment × Batch R :=
  if batch.recordsLen = 0 then (.error (.error .emptyBatch), seg, batch)
  else
    let batch := { batch with baseOffset := seg.endOffset }
    let nextEndOffset := batch.getLastOffset
    let relativeOffsetInSegment : Int32 := (seg.endOffset - seg.baseOffset).toInt32
    match seg.msgLog.writeBatch batch with
    | (.error e, msgLog) => (.error e, { seg with msgLog }, batch)
    | (.ok (false, _, _), msgLog) => (.ok false, { seg with msgLog }, batch)
    | (.ok (true, _, _), msgLog) =>
      match seg.index.writeIndex relativeOffsetInSegment.toUInt32.toNat with
      | (.error e, index) => (.error e, { seg with msgLog, index }, batch)
      | (.ok (), index) => (.ok true, { seg with msgLog, index, endOffset := nextEndOffset + 1 }, batch)

end Append

/-! ### What a write does -/

section Spec

variable {R : Type}

/-- The records a non-empty batch announces, as the `i64` its last offset delta ends at. -/
theorem Batch.ofNat_recordsLen {b : Batch R} (h : b.recordsLen ≠ 0) :
    Int64.ofNat b.recordsLen = b.header.lastOffsetDelta.toInt64 + 1 := by
  unfold Batch.recordsLen at h ⊢
  split at h
  · exact absurd rfl h
  · rename_i hnonneg
    rw [if_neg hnonneg]
    have h0 : 0 ≤ b.header.lastOffsetDelta.toInt := by
      rw [Int32.lt_iff_toInt_lt] at hnonneg
      simpa using hnonneg
    have hlt := b.header.lastOffsetDelta.toInt_lt
    have hone : (1 : Int64).toInt = 1 := rfl
    apply Int64.toInt_inj.mp
    rw [Int64.toInt_ofNat_of_lt (by omega), Int64.toInt_add, Int32.toInt_toInt64, hone]
    push_cast
    rw [Int.toNat_of_nonneg h0, Int.bmod_def]
    omega

/-- A non-empty batch placed at `offset` ends its segment at `offset` plus its records. -/
theorem Batch.getLastOffset_add_one {b : Batch R} (h : b.recordsLen ≠ 0) (offset : Int64) :
    ({ b with baseOffset := offset } : Batch R).getLastOffset + 1 = offset + Int64.ofNat b.recordsLen := by
  rw [Batch.ofNat_recordsLen h, Batch.getLastOffset]
  grind

variable [Crc32c] [Encoder R]

/-- A batch that fits is written: its encoding goes to the end of the file. -/
theorem MutFileRecords.writeBatch_fits {log : MutFileRecords} {batch : Batch R} {bytes : List UInt8}
    (hbase : ¬ batch.baseOffset < log.baseOffset) (hsize : Encoder.writeSize batch = some bytes.length)
    (henc : Encoder.encode batch = some bytes) (hfit : log.bytes.length + bytes.length ≤ log.maxLen)
    (hmax : log.maxLen < 2 ^ 32) :
    log.writeBatch batch =
      (.ok (true, bytes.length, (log.bytes ++ bytes).length), { log with bytes := log.bytes ++ bytes }) := by
  have hmod : bytes.length % 2 ^ 32 = bytes.length := Nat.mod_eq_of_lt (by omega)
  have hwrap : ¬ 2 ^ 32 ≤ bytes.length + log.bytes.length := by omega
  have hroom : ¬ log.maxLen < bytes.length + log.bytes.length := by omega
  simp only [MutFileRecords.writeBatch, hbase, hsize, hmod, hwrap, hroom, henc, if_false, if_true]

/-- A batch that does not fit leaves the file as it is. -/
theorem MutFileRecords.writeBatch_full {log : MutFileRecords} {batch : Batch R} {n : Nat}
    (hbase : ¬ batch.baseOffset < log.baseOffset) (hsize : Encoder.writeSize batch = some n)
    (hfull : log.maxLen < log.bytes.length + n) (hwrap : log.bytes.length + n < 2 ^ 32) :
    log.writeBatch batch = (.ok (false, n, log.bytes.length), log) := by
  have hmod : n % 2 ^ 32 = n := Nat.mod_eq_of_lt (by omega)
  have hwrap' : ¬ 2 ^ 32 ≤ n + log.bytes.length := by omega
  have hfull' : log.maxLen < n + log.bytes.length := by omega
  simp only [MutFileRecords.writeBatch, hbase, hsize, hmod, hwrap', hfull', if_false, if_true]

/-- **A batch with a schema id that fits panics on the length assertion**: `write_size`
leaves out the four bytes `encode` writes for the schema id. -/
theorem MutFileRecords.writeBatch_schema_panics {log : MutFileRecords} {batch : Batch R} {n : Nat}
    (hschema : batch.header.hasSchema = true) (hrecords : SizeAgreesAt batch.records)
    (hbase : ¬ batch.baseOffset < log.baseOffset) (hsize : Encoder.writeSize batch = some n)
    (hfit : log.bytes.length + n ≤ log.maxLen) (hmax : log.maxLen < 2 ^ 32) :
    log.writeBatch batch = (.error (.panic assertEqMessage), log) := by
  have hlen := Batch.encode_length_eq hrecords
  have hfour : batch.schemaBytes.length = 4 := by simp [Batch.schemaBytes, hschema, u32Width]
  rw [hsize, hfour] at hlen
  obtain ⟨bytes, henc, hbytes⟩ := Option.map_eq_some_iff.mp hlen
  simp only at hbytes
  have hmod : n % 2 ^ 32 = n := Nat.mod_eq_of_lt (by omega)
  have hwrap : ¬ 2 ^ 32 ≤ n + log.bytes.length := by omega
  have hroom : ¬ log.maxLen < n + log.bytes.length := by omega
  have hne : bytes.length ≠ n := by omega
  simp only [MutFileRecords.writeBatch, hbase, hsize, hmod, hwrap, hroom, henc, hne, if_false]

/-- What `write_batch` can leave behind: the file as it was, or the file with the batch's
encoding at its end, which it reports as written. -/
theorem MutFileRecords.writeBatch_cases (log : MutFileRecords) (batch : Batch R) :
    ((log.writeBatch batch).2 = log ∧ ∀ n p, (log.writeBatch batch).1 ≠ .ok (true, n, p)) ∨
    ∃ bytes, Encoder.encode batch = some bytes ∧ ¬ batch.baseOffset < log.baseOffset ∧
      log.writeBatch batch =
        (.ok (true, bytes.length, (log.bytes ++ bytes).length), { log with bytes := log.bytes ++ bytes }) := by
  unfold MutFileRecords.writeBatch
  split
  · exact .inl ⟨rfl, by simp⟩
  · rename_i hbase
    split
    · exact .inl ⟨rfl, by simp⟩
    · rename_i n _
      split
      · exact .inl ⟨rfl, by simp⟩
      · split
        · exact .inl ⟨rfl, by simp⟩
        · split
          · exact .inl ⟨rfl, by simp⟩
          · rename_i bytes henc
            split
            · rename_i heq
              exact .inr ⟨bytes, henc, hbase, by rw [heq]⟩
            · exact .inl ⟨rfl, by simp⟩

/-- The only errors `write_batch` returns: a batch below the segment's base offset. -/
theorem MutFileRecords.writeBatch_error {log : MutFileRecords} {batch : Batch R} {e : StorageError}
    (h : (log.writeBatch batch).1 = .error (.error e)) : e = .invalidBaseOffsetMinimum batch.baseOffset := by
  unfold MutFileRecords.writeBatch at h
  repeat' split at h
  all_goals simp_all

/-- **Everything `append_batch` does.** An empty batch is refused; otherwise the batch is
placed at the end offset, and either it does not fit and nothing changes, or its encoding
is appended and the end offset moves past its records, or the call fails with what the
log file or the index reports. -/
theorem MutableSegment.appendBatch_cases (seg : MutableSegment) (batch : Batch R) :
    (batch.recordsLen = 0 ∧ seg.appendBatch batch = (.error (.error .emptyBatch), seg, batch)) ∨
    (batch.recordsLen ≠ 0 ∧
      seg.appendBatch batch = (.ok false, seg, { batch with baseOffset := seg.endOffset })) ∨
    (batch.recordsLen ≠ 0 ∧ ∃ bytes index,
      Encoder.encode ({ batch with baseOffset := seg.endOffset } : Batch R) = some bytes ∧
      ¬ seg.endOffset < seg.msgLog.baseOffset ∧
      seg.appendBatch batch = (.ok true,
        { seg with
          msgLog := { seg.msgLog with bytes := seg.msgLog.bytes ++ bytes }
          index
          endOffset := seg.endOffset + Int64.ofNat batch.recordsLen },
        { batch with baseOffset := seg.endOffset })) ∨
    (batch.recordsLen ≠ 0 ∧ ∃ f seg', seg.appendBatch batch = (.error f, seg', { batch with baseOffset := seg.endOffset }) ∧
      ∀ e, f = .error e → e = .invalidBaseOffsetMinimum seg.endOffset) := by
  by_cases hempty : batch.recordsLen = 0
  · exact .inl ⟨hempty, by simp [MutableSegment.appendBatch, hempty]⟩
  right
  have hlast := Batch.getLastOffset_add_one hempty seg.endOffset
  rcases MutFileRecords.writeBatch_cases seg.msgLog { batch with baseOffset := seg.endOffset } with
    ⟨hlog, hnot⟩ | ⟨bytes, henc, hbase, hwrite⟩
  · -- the file is unchanged: not written, or an error
    cases hres : (seg.msgLog.writeBatch { batch with baseOffset := seg.endOffset }).1 with
    | error f =>
      refine .inr (.inr ⟨hempty, f, { seg with msgLog := seg.msgLog }, ?_, ?_⟩)
      · simp only [MutableSegment.appendBatch, hempty, if_false]
        rw [show seg.msgLog.writeBatch { batch with baseOffset := seg.endOffset } =
          (.error f, seg.msgLog) from Prod.ext hres hlog]
      · intro e he
        subst he
        exact MutFileRecords.writeBatch_error hres
    | ok res =>
      obtain ⟨written, n, p⟩ := res
      cases written with
      | true => exact absurd hres (hnot n p)
      | false =>
        refine .inl ⟨hempty, ?_⟩
        simp only [MutableSegment.appendBatch, hempty, if_false]
        rw [show seg.msgLog.writeBatch { batch with baseOffset := seg.endOffset } =
          (.ok (false, n, p), seg.msgLog) from Prod.ext hres hlog]
  · -- written: the index is told the relative offset
    simp only [MutableSegment.appendBatch, hempty, if_false, hwrite]
    cases hidx : seg.index.writeIndex (seg.endOffset - seg.baseOffset).toInt32.toUInt32.toNat with
    | mk res index =>
      cases res with
      | ok u =>
        refine .inr (.inl ⟨hempty, bytes, index, henc, hbase, ?_⟩)
        rw [← hlast]
      | error f =>
        refine .inr (.inr ⟨hempty, f, _, rfl, ?_⟩)
        intro e he
        subst he
        unfold MutLogIndex.writeIndex at hidx
        repeat' split at hidx
        all_goals simp_all

end Spec

end Fluvio.Storage
