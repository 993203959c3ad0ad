import Fluvio.Protocol.Compression

/-!
The producer's in-memory batch (`fluvio/src/producer/memory_batch.rs`).

`MemoryBatch::push_record` stamps the record with its position and the batch's age, then
checks the write limit before the batch limit: a record that breaks the write limit is refused
with `RecordTooLarge` and marks the batch full; the first record is always taken otherwise; a
later one is handed back (`NotAdded`) when it would break the batch limit.

* `MemoryBatch.pushRecord_pushed` — what one call can do, as the relation `Pushed`;
* `MemoryBatch.Valid` — the batch's bookkeeping: the running size is the `write_size` of its
  records, each record's offset delta is its index, a non-empty batch keeps to the write limit
  and one of two records or more to the batch limit; `new` has it and `push_record` keeps it;
* `MemoryBatch.writeSize_toBatch` — `raw_size` is the `write_size` of the `Batch` the producer
  sends.

The clock is an input: each call takes the reading `now` that `Utc::now()` would give.
-/

namespace Fluvio.Producer

open Protocol

/-- `Timestamp`: milliseconds since the epoch. -/
abbrev Timestamp := Int64

/-- The `ProducerError`s the batching raises. -/
inductive ProducerError where
  | recordTooLarge (size limit : Nat)
  | internal (msg : String)
  deriving DecidableEq, Repr

/-- `MemoryBatchStatus`: the record's offset in the batch, or the record handed back. -/
inductive MemoryBatchStatus where
  | added (offset : Int64)
  | notAdded (record : Record RecordData)
  deriving DecidableEq, Repr

/-- `MemoryBatch`. -/
structure MemoryBatch where
  compression : Compression
  batchLimit : Nat
  writeLimit : Nat
  currentSizeUncompressed : Nat
  isFull : Bool
  createTime : Timestamp
  records : List (Record RecordData)
  deriving DecidableEq, Repr

/-- `Vec::<RawRecords>::default().write_size(0)`: the count of an empty vector. -/
def emptyVecSize : Nat := 4

theorem writeSize_nil_rawRecords : Encoder.writeSize ([] : List RawRecords) = some emptyVecSize := rfl

/-- `Batch::<RawRecords>::default().write_size(0)` is the file header alone. -/
theorem writeSize_default_rawBatch : Batch.writeSize (default : Batch RawRecords) = some batchFileHeaderSize :=
  rfl

/-- `MemoryBatch::new`, created at the clock reading `now`. -/
def MemoryBatch.new (writeLimit batchLimit : Nat) (compression : Compression) (now : Timestamp) :
    MemoryBatch :=
  ⟨compression, batchLimit, writeLimit, emptyVecSize, false, now, []⟩

/-- `MemoryBatch::elapsed`. -/
def MemoryBatch.elapsed (b : MemoryBatch) (now : Timestamp) : Timestamp := max 0 (now - b.createTime)

/-- `MemoryBatch::raw_size`. -/
def MemoryBatch.rawSize (b : MemoryBatch) : Nat := b.currentSizeUncompressed + batchFileHeaderSize

/-- `MemoryBatch::records_len`. -/
def MemoryBatch.recordsLen (b : MemoryBatch) : Nat := b.records.length

/-- `MemoryBatch::offset`. -/
def MemoryBatch.offset (b : MemoryBatch) : Nat := b.recordsLen

/-- The record as `push_record` stamps it: its offset in the batch and the batch's age. -/
def MemoryBatch.stamp (b : MemoryBatch) (record : Record RecordData) (now : Timestamp) :
    Record RecordData :=
  (record.setOffsetDelta (Int64.ofNat b.offset)).setTimestampDelta (b.elapsed now)

/-- `MemoryBatch::push_record` at the clock reading `now`: the status or error, and the batch
after the call, which the error path changes too; `none` when `write_size` does not return. -/
def MemoryBatch.pushRecord (b : MemoryBatch) (record : Record RecordData) (now : Timestamp) :
    Option (Except ProducerError MemoryBatchStatus × MemoryBatch) := do
  let isTheFirstRecord := b.recordsLen == 0
  let currentOffset := Int64.ofNat b.offset
  let record := b.stamp record now
  let recordSize ← Encoder.writeSize record
  let actualBatchSize := b.rawSize + recordSize
  let add (b : MemoryBatch) : MemoryBatch :=
    { b with currentSizeUncompressed := b.currentSizeUncompressed + recordSize, records := b.records ++ [record] }
  pure <|
    if b.writeLimit < actualBatchSize then
      (.error (.recordTooLarge actualBatchSize b.writeLimit), { b with isFull := true })
    else if isTheFirstRecord then
      (.ok (.added currentOffset), add { b with isFull := b.isFull || decide (b.batchLimit < actualBatchSize) })
    else if b.batchLimit < actualBatchSize then
      (.ok (.notAdded record), { b with isFull := true })
    else
      (.ok (.added currentOffset), add { b with isFull := b.isFull || decide (actualBatchSize = b.batchLimit) })

/-- `impl From<MemoryBatch> for Batch<MemoryRecords>`. -/
def MemoryBatch.toBatch (p : MemoryBatch) : Option (Batch MemoryRecords) := do
  let size ← Encoder.writeSize p.records
  let len : Int32 := Int32.ofNat p.records.length
  let lastOffsetDelta := if 0 < len then len - 1 else len
  let maxTimeStamp := (p.records.getLast?.map fun r => p.createTime + r.preamble.timestampDelta).getD 0
  let header : BatchHeader := { (default : BatchHeader) with
    lastOffsetDelta, firstTimestamp := p.createTime, maxTimeStamp }
  pure ⟨lastOffsetDelta.toInt64, Int32.ofNat (batchHeaderSize + size), header.setCompression p.compression,
    0, p.records⟩

/-! ### What one `push_record` does -/

/-- The outcomes of `push_record` with the stamped record `r` of `size` bytes: refused by the
write limit, added (to an empty batch whatever the batch limit), or handed back by the batch
limit. Only `is_full` is left open where the record is added. -/
inductive MemoryBatch.Pushed (b : MemoryBatch) (r : Record RecordData) (size : Nat) :
    Except ProducerError MemoryBatchStatus → MemoryBatch → Prop
  | tooLarge : b.writeLimit < b.rawSize + size →
      Pushed b r size (.error (.recordTooLarge (b.rawSize + size) b.writeLimit)) { b with isFull := true }
  | added (full : Bool) : b.rawSize + size ≤ b.writeLimit → (b.records = [] ∨ b.rawSize + size ≤ b.batchLimit) →
      Pushed b r size (.ok (.added (Int64.ofNat b.records.length)))
        { b with isFull := full, currentSizeUncompressed := b.currentSizeUncompressed + size,
                 records := b.records ++ [r] }
  | notAdded : b.rawSize + size ≤ b.writeLimit → b.records ≠ [] → b.batchLimit < b.rawSize + size →
      Pushed b r size (.ok (.notAdded r)) { b with isFull := true }

theorem MemoryBatch.pushRecord_pushed {b b' : MemoryBatch} {record : Record RecordData} {now : Timestamp}
    {res : Except ProducerError MemoryBatchStatus} (h : b.pushRecord record now = some (res, b')) :
    ∃ size, Encoder.writeSize (b.stamp record now) = some size ∧ Pushed b (b.stamp record now) size res b' := by
  simp only [pushRecord, Option.bind_eq_bind, Option.bind_eq_some_iff, Option.pure_def, Option.some.injEq] at h
  obtain ⟨size, hsize, h⟩ := h
  refine ⟨size, hsize, ?_⟩
  by_cases hwrite : b.writeLimit < b.rawSize + size
  · rw [if_pos hwrite, Prod.mk.injEq] at h
    obtain ⟨rfl, rfl⟩ := h
    exact .tooLarge hwrite
  rw [if_neg hwrite] at h
  by_cases hfirst : b.records = []
  · have hlen : (b.recordsLen == 0) = true := by simp [recordsLen, hfirst]
    rw [if_pos hlen, Prod.mk.injEq] at h
    obtain ⟨rfl, rfl⟩ := h
    exact .added _ (by omega) (.inl hfirst)
  have hlen : ¬ (b.recordsLen == 0) = true := by simpa [recordsLen] using hfirst
  rw [if_neg hlen] at h
  by_cases hbatch : b.batchLimit < b.rawSize + size
  · rw [if_pos hbatch, Prod.mk.injEq] at h
    obtain ⟨rfl, rfl⟩ := h
    exact .notAdded (by omega) hfirst hbatch
  · rw [if_neg hbatch, Prod.mk.injEq] at h
    obtain ⟨rfl, rfl⟩ := h
    exact .added _ (by omega) (.inr (by omega))

/-- Whatever the outcome, the limits, the codec and the creation time stay. -/
structure MemoryBatch.SameConfig (b b' : MemoryBatch) : Prop where
  compression : b'.compression = b.compression
  batchLimit : b'.batchLimit = b.batchLimit
  writeLimit : b'.writeLimit = b.writeLimit
  createTime : b'.createTime = b.createTime

theorem MemoryBatch.Pushed.sameConfig {b b' : MemoryBatch} {r : Record RecordData} {size : Nat}
    {res : Except ProducerError MemoryBatchStatus} (h : Pushed b r size res b') : SameConfig b b' := by
  cases h <;> exact ⟨rfl, rfl, rfl, rfl⟩

/-- A record is refused or handed back only with the batch's records as they were. -/
theorem MemoryBatch.Pushed.records_of_not_added {b b' : MemoryBatch} {r : Record RecordData} {size : Nat}
    {res : Except ProducerError MemoryBatchStatus} (h : Pushed b r size res b')
    (hres : ∀ offset, res ≠ .ok (.added offset)) : b'.records = b.records := by
  cases h with
  | tooLarge => rfl
  | added => exact absurd rfl (hres _)
  | notAdded => rfl

/-- An empty batch never hands its record back. -/
theorem MemoryBatch.Pushed.ne_notAdded_of_nil {b b' : MemoryBatch} {r r' : Record RecordData} {size : Nat}
    (h : Pushed b r size (.ok (.notAdded r')) b') : b.records ≠ [] := by
  cases h with
  | notAdded _ hne _ => exact hne

/-! ### The batch's bookkeeping -/

/-- `Vec::write_size` of records with one more at the end. -/
theorem writeSize_append_singleton {M : Type} [Encoder M] {xs : List M} {x : M} {n m : Nat}
    (hxs : Encoder.writeSize xs = some n) (hx : Encoder.writeSize x = some m) :
    Encoder.writeSize (xs ++ [x]) = some (n + m) := by
  change vecWriteSize _ = _ at hxs ⊢
  simp only [vecWriteSize, List.foldl_append, List.foldl_cons, List.foldl_nil] at hxs ⊢
  rw [hxs]
  simp [addWriteSize, hx]

/-- A batch whose running size is the `write_size` of its records, whose records carry their
index as offset delta, and which keeps to its limits (the batch limit from its second record). -/
structure MemoryBatch.Valid (b : MemoryBatch) : Prop where
  size : Encoder.writeSize b.records = some b.currentSizeUncompressed
  offsets : ∀ i (h : i < b.records.length), (b.records[i]).preamble.offsetDelta = Int64.ofNat i
  write : b.records ≠ [] → b.rawSize ≤ b.writeLimit
  batch : 1 < b.records.length → b.rawSize ≤ b.batchLimit

theorem MemoryBatch.valid_new (writeLimit batchLimit : Nat) (compression : Compression) (now : Timestamp) :
    (MemoryBatch.new writeLimit batchLimit compression now).Valid where
  size := rfl
  offsets i h := absurd h (Nat.not_lt_zero i)
  write h := absurd rfl h
  batch h := by simp [new] at h

@[simp] theorem MemoryBatch.stamp_offsetDelta (b : MemoryBatch) (record : Record RecordData) (now : Timestamp) :
    (b.stamp record now).preamble.offsetDelta = Int64.ofNat b.records.length := rfl

/-- Changing only `is_full` keeps a batch valid. -/
theorem MemoryBatch.Valid.setFull {b : MemoryBatch} (hb : b.Valid) (full : Bool) :
    ({ b with isFull := full } : MemoryBatch).Valid :=
  ⟨hb.size, hb.offsets, hb.write, hb.batch⟩

/-- `push_record` keeps a batch valid. -/
theorem MemoryBatch.Valid.pushed {b b' : MemoryBatch} {now : Timestamp} {record : Record RecordData}
    {size : Nat} {res : Except ProducerError MemoryBatchStatus} (hb : b.Valid)
    (hsize : Encoder.writeSize (b.stamp record now) = some size) (h : Pushed b (b.stamp record now) size res b') :
    b'.Valid := by
  cases h with
  | tooLarge => exact hb.setFull true
  | notAdded => exact hb.setFull true
  | added full hwrite hbatch =>
    refine ⟨writeSize_append_singleton hb.size hsize, ?_, fun _ => by simpa [rawSize, Nat.add_right_comm] using hwrite, ?_⟩
    · -- the new record is stamped with the old length, the others keep theirs
      intro i hi
      rw [List.length_append, List.length_singleton] at hi
      by_cases hold : i < b.records.length
      · rw [List.getElem_append_left hold]
        exact hb.offsets i hold
      · have hi' : i = b.records.length := by omega
        subst hi'
        simp
    · intro hlen
      rcases hbatch with hnil | hle
      · simp [hnil] at hlen
      · simpa [rawSize, Nat.add_right_comm] using hle

/-- The `Batch` the producer sends has `raw_size` as its `write_size`. -/
theorem MemoryBatch.writeSize_toBatch {p : MemoryBatch} (hp : p.Valid) :
    ∃ batch, p.toBatch = some batch ∧ batch.records = p.records ∧ Batch.writeSize batch = some p.rawSize := by
  refine ⟨_, by simp only [toBatch, hp.size]; rfl, rfl, ?_⟩
  simp [Batch.writeSize, hp.size, rawSize, Nat.add_comm]

end Fluvio.Producer
