import Fluvio.Protocol.Compression
import Fluvio.Protocol.ErrorCode
import Fluvio.Lib.Trace

/-!
The stream fetch of the SPU with a SmartModule chain (`fluvio-spu/src/services/public/stream_fetch.rs`
and `smartengine/batch.rs`).

`send_back_records` reads the log from the consumer's offset, runs the chain over the batches of
the slice with `process_batch`, and `send_processed_response` sends what came out. The handler
then waits for the consumer's offset when it sent records, and takes the read end as the
consumer's offset when it sent nothing.

`process_batch` stops at the first batch whose output would take the output past `max_bytes`,
without adding it. When that batch is the first with survivors, the output is empty, nothing is
sent, and the handler takes the read end: the batch is passed over.

* `processBatch_first_oversized` — the output when the first batch's survivors exceed
  `max_bytes`: no record, and the chain's error.
* `oversizedBatch_skipped` — one batch whose one record survives a chain that keeps every record
  but takes more than `max_bytes`: the handler moves past it at once, and whatever the consumer
  and the leader report afterwards, it never sends a response.
-/

namespace Fluvio.Protocol

/-- `Record::add_base_offset`. -/
def Record.addBaseOffset (r : Record B) (relativeBaseOffset : Int64) : Record B :=
  r.setOffsetDelta (r.preamble.offsetDelta + relativeBaseOffset)

@[simp] theorem Record.addBaseOffset_zero (r : Record B) : r.addBaseOffset 0 = r := by
  simp [Record.addBaseOffset, Record.setOffsetDelta]

/-- `Batch::set_offset_delta`. -/
def Batch.setOffsetDelta (b : Batch R) (delta : Int32) : Batch R :=
  { b with header := { b.header with lastOffsetDelta := delta } }

/-- `Batch::add_to_offset_delta`. -/
def Batch.addToOffsetDelta (b : Batch R) (delta : Int32) : Batch R :=
  { b with header := { b.header with lastOffsetDelta := b.header.lastOffsetDelta + delta } }

end Fluvio.Protocol

namespace Fluvio.Spu

open Protocol

/-! ### The chain over the batches of a slice -/

/-- `FileBatch`: a batch of the log as `FileBatchIterator` yields it, its header and its records
uncompressed. The records are kept decoded; the chain reads them from the bytes. -/
structure FileBatch where
  baseOffset : Int64
  header : BatchHeader
  records : List (Record RecordData)
deriving DecidableEq, Repr

/-- `SmartModuleInputBatch::offset_delta`: the header's `last_offset_delta`. -/
def FileBatch.offsetDelta (b : FileBatch) : Int32 := b.header.lastOffsetDelta

/-- `SmartModuleOutput`: the records that come out of the chain, with offset deltas relative to
the input batch's base offset, and the runtime error that stopped the chain, by its text. -/
structure SmartModuleOutput where
  successes : List (Record RecordData)
  error : Option String
deriving DecidableEq, Repr

/-- A SmartModule chain, as far as `process_batch` calls it: one input batch in, its output or
the error of the engine out. -/
abbrev SmartModuleChain := FileBatch → Except String SmartModuleOutput

/-- A chain of filters and maps, record by record: the records `f` keeps, as `f` leaves them. -/
def SmartModuleChain.perRecord (f : Record RecordData → Option (Record RecordData)) : SmartModuleChain :=
  fun input => .ok ⟨input.records.filterMap f, none⟩

/-- The batch `process_batch` starts from: base offset `-1`, which marks it uninitialised, and
offset delta `-1`, so that adding the first batch's `offset_delta + 1` gives its delta. -/
def initBatch : Batch MemoryRecords :=
  ({ (default : Batch MemoryRecords) with baseOffset := -1 }).setOffsetDelta (-1)

/-- `set_compression`: the input batch's compression, when its header names one. -/
def setCompression (input : FileBatch) (batch : Batch MemoryRecords) : Batch MemoryRecords :=
  match input.header.getCompression with
  | .ok compression => { batch with header := batch.header.setCompression compression }
  | .error _ => batch

/-- What the survivors of one input batch do to the output: they are added, or they would take
it past `max_bytes` and `process_batch` returns the output as it is. -/
inductive Joined
  | added (batch : Batch MemoryRecords) (totalBytes : Nat)
  | stop (batch : Batch MemoryRecords)
deriving DecidableEq, Repr

/-- The `else` branch of `if records.is_empty()` in `process_batch`: the first survivors set the
base offset and compression, the records are moved to that base, and they join unless they take
the output past `max_bytes`. `none` when `write_size` does not return. -/
def joinOutput (maxBytes : Nat) (input : FileBatch) (records : List (Record RecordData))
    (batch : Batch MemoryRecords) (totalBytes : Nat) : Option Joined :=
  if records = [] then some (.added batch totalBytes)
  else
    let batch := if batch.baseOffset = -1 then { setCompression input batch with baseOffset := input.baseOffset }
      else batch
    let relativeBaseOffset := batch.baseOffset - input.baseOffset
    let records := records.map (·.addBaseOffset relativeBaseOffset)
    (Encoder.writeSize records).map fun recordBytes =>
      if maxBytes < totalBytes + recordBytes then .stop batch
      else .added { batch with records := batch.records ++ records } (totalBytes + recordBytes)

/-- The loop of `process_batch` over the iterator's items, from the output so far and its size.
`none` when a `write_size` does not return. -/
def processBatchLoop (chain : SmartModuleChain) (maxBytes : Nat) :
    List (Except String FileBatch) → Batch MemoryRecords → Nat →
      Option (Except String (Batch MemoryRecords × Option String))
  | [], batch, _ => some (.ok (batch, none))
  | .error e :: _, _, _ => some (.error e)
  | .ok input :: rest, batch, totalBytes =>
    match chain input with
    | .error e => some (.error e)
    | .ok output =>
      match joinOutput maxBytes input output.successes batch totalBytes with
      | none => none
      | some (.stop batch) => some (.ok (batch, output.error))
      | some (.added batch totalBytes) =>
        -- the offset delta moves over the whole input batch once the output has a base
        let batch := if batch.baseOffset ≠ -1 then batch.addToOffsetDelta (input.offsetDelta + 1) else batch
        if output.error.isSome then some (.ok (batch, output.error))
        else processBatchLoop chain maxBytes rest batch totalBytes

/-- `process_batch`: the output batch and the chain's runtime error, or the first error of the
iterator or the engine. -/
def processBatch (chain : SmartModuleChain) (inputs : List (Except String FileBatch)) (maxBytes : Nat) :
    Option (Except String (Batch MemoryRecords × Option String)) :=
  processBatchLoop chain maxBytes inputs initBatch 0

/-! ### The handler -/

/-- The partition response `send_processed_response` sends: its error code, the output batch,
and `next_filter_offset`. -/
structure ProcessedResponse where
  errorCode : ErrorCode
  batch : Batch MemoryRecords
  nextFilterOffset : Int64
deriving DecidableEq, Repr

/-- `send_processed_response`: the response it sends, if any, and the offset and consumer-wait
flag it returns. A response goes out when there are records or an error; the offset returned is
`next_offset`, the read end, either way. -/
def sendProcessedResponse (fileErrorCode : ErrorCode) (nextOffset : Int64) (batch : Batch MemoryRecords)
    (smartmoduleError : Option String) : Option ProcessedResponse × Int64 × Bool :=
  let errorCode := match smartmoduleError with
    | some error => .smartModuleRuntimeError error
    | none => fileErrorCode
  let hasError := errorCode != .none
  let hasRecords := !batch.records.isEmpty
  if !hasRecords && !hasError then (none, nextOffset, false)
  else
    let nextFilterOffset := if hasRecords then batch.getLastOffset + 1 else nextOffset
    (some ⟨errorCode, batch, nextFilterOffset⟩, nextOffset, true)

/-- What `read_records` gives the stream fetch from a starting offset: the items of the file
slice, from the batch that holds the offset, and the read end under the consumer's isolation
(`hw` or `leo`). -/
structure ReadSlice where
  batches : List (Except String FileBatch)
  readEnd : Int64

/-- The log as the handler reads it: `read_records` from an offset, or its error code. -/
abbrev PartitionReader := Int64 → Except ErrorCode ReadSlice

/-- `StreamFetchError`, as `send_back_records` returns it. -/
inductive StreamFetchError
  | fetch (code : ErrorCode)
deriving DecidableEq, Repr

/-- `send_back_records` with a SmartModule chain: the response sent, if any, and the offset and
consumer-wait flag; `none` when a `write_size` does not return. -/
def sendBackRecords (read : PartitionReader) (chain : SmartModuleChain) (maxBytes : Nat)
    (startingOffset : Int64) : Option (Except StreamFetchError (Option ProcessedResponse × Int64 × Bool)) :=
  match read startingOffset with
  | .error code => some (.error (.fetch code))
  | .ok slice =>
    -- an empty slice: the next read starts at the same offset
    if slice.batches = [] then some (.ok (none, startingOffset, false))
    else
      match processBatch chain slice.batches maxBytes with
      | none => none
      | some (.error err) => some (.error (.fetch (.other ("SmartModule err " ++ err))))
      | some (.ok (batch, smartmoduleError)) =>
        some (.ok (sendProcessedResponse .none slice.readEnd batch smartmoduleError))

/-- `INIT_OFFSET`. -/
def initOffset : Int64 := -1

/-- `TOPIC_DELETED`. -/
def topicDeleted : Int64 := -2

/-- The loop of `StreamFetchHandler::process`: the last offset read from the partition, the
consumer's offset when the handler knows it, and the responses sent so far. -/
structure StreamFetchHandler where
  lastPartitionOffset : Int64
  lastKnownConsumerOffset : Option Int64
  sent : List ProcessedResponse
deriving DecidableEq, Repr

/-- What the loop waits for: an offset the consumer acknowledges, or a new offset of the leader. -/
inductive Event
  | consumerOffsetUpdate (offset : Int64)
  | partitionOffsetUpdate (offset : Int64)
deriving DecidableEq, Repr

section Handler

variable (read : PartitionReader) (chain : SmartModuleChain) (maxBytes : Nat)

/-- The handler after a `send_back_records` that returned: the response joins those sent, the
offset becomes the last read, and the consumer's offset is forgotten when it must answer. -/
def StreamFetchHandler.afterSend (h : StreamFetchHandler) (response : Option ProcessedResponse)
    (offset : Int64) (wait : Bool) : StreamFetchHandler :=
  { lastPartitionOffset := offset
    lastKnownConsumerOffset := if wait then none else some offset
    sent := h.sent ++ response.toList }

/-- `send_back_records` from the handler; `none` when it fails or does not return, which ends
the loop. -/
def StreamFetchHandler.sendBack (h : StreamFetchHandler) (offset : Int64) : Option StreamFetchHandler :=
  match sendBackRecords read chain maxBytes offset with
  | some (.ok (response, offset, wait)) => some (h.afterSend response offset wait)
  | _ => none

/-- `process` up to its loop: the first `send_back_records` from the starting offset. -/
def StreamFetchHandler.start (startingOffset : Int64) : Option StreamFetchHandler :=
  (⟨startingOffset, none, []⟩ : StreamFetchHandler).sendBack read chain maxBytes startingOffset

/-- One turn of the loop of `process`. `none` when the loop ends. -/
def StreamFetchHandler.next (h : StreamFetchHandler) : Event → Option StreamFetchHandler
  | .consumerOffsetUpdate offset =>
    if offset = initOffset then some h
    else if offset = topicDeleted then none
    -- a consumer that is caught up needs nothing
    else if h.lastPartitionOffset ≤ offset then some { h with lastKnownConsumerOffset := some offset }
    else h.sendBack read chain maxBytes offset
  | .partitionOffsetUpdate offset =>
    match h.lastKnownConsumerOffset with
    | none => some { h with lastPartitionOffset := offset }
    | some consumerOffset =>
      if offset ≤ consumerOffset then some { h with lastPartitionOffset := offset }
      else h.sendBack read chain maxBytes consumerOffset

end Handler

/-! ### Survivors that do not fit -/

@[simp] theorem initBatch_baseOffset : initBatch.baseOffset = -1 := rfl

@[simp] theorem initBatch_records : initBatch.records = [] := rfl

@[simp] theorem setCompression_records (input : FileBatch) (batch : Batch MemoryRecords) :
    (setCompression input batch).records = batch.records := by
  unfold setCompression
  split <;> rfl

/-- The first survivors of a slice, when they take more than `max_bytes`, stop the loop: the
output has a base offset, but no record. -/
theorem joinOutput_first_oversized {maxBytes n : Nat} {input : FileBatch} {records : List (Record RecordData)}
    (hne : records ≠ []) (hsize : Encoder.writeSize records = some n) (hmax : maxBytes < n) :
    joinOutput maxBytes input records initBatch 0 =
      some (.stop { setCompression input initBatch with baseOffset := input.baseOffset }) := by
  simp [joinOutput, hne, hsize, hmax]

/-- **The first batch with survivors that do not fit ends `process_batch`** with no record in
the output, and the chain's error, if any. -/
theorem processBatch_first_oversized {chain : SmartModuleChain} {input : FileBatch} {output : SmartModuleOutput}
    {rest : List (Except String FileBatch)} {maxBytes n : Nat} (hchain : chain input = .ok output)
    (hne : output.successes ≠ []) (hsize : Encoder.writeSize output.successes = some n) (hmax : maxBytes < n) :
    processBatch chain (.ok input :: rest) maxBytes =
      some (.ok ({ setCompression input initBatch with baseOffset := input.baseOffset }, output.error)) := by
  simp only [processBatch, processBatchLoop, hchain, joinOutput_first_oversized hne hsize hmax]

/-- With no record and no error, `send_processed_response` sends nothing and returns the read
end without waiting for the consumer. -/
theorem sendProcessedResponse_empty {nextOffset : Int64} {batch : Batch MemoryRecords}
    (hbatch : batch.records = []) : sendProcessedResponse .none nextOffset batch none = (none, nextOffset, false) := by
  simp [sendProcessedResponse, hbatch]

/-- **A slice that starts with survivors that do not fit is passed over**: `send_back_records`
sends nothing and returns the read end, without waiting for the consumer. -/
theorem sendBackRecords_first_oversized {read : PartitionReader} {chain : SmartModuleChain} {offset : Int64}
    {slice : ReadSlice} {input : FileBatch} {rest : List (Except String FileBatch)} {output : SmartModuleOutput}
    {maxBytes n : Nat} (hread : read offset = .ok slice) (hslice : slice.batches = .ok input :: rest)
    (hchain : chain input = .ok output) (hne : output.successes ≠ []) (herr : output.error = none)
    (hsize : Encoder.writeSize output.successes = some n) (hmax : maxBytes < n) :
    sendBackRecords read chain maxBytes offset = some (.ok (none, slice.readEnd, false)) := by
  simp only [sendBackRecords, hread, hslice, reduceCtorEq, if_false,
    processBatch_first_oversized hchain hne hsize hmax, herr]
  rw [sendProcessedResponse_empty (by simp)]

/-! ### The loop -/

section Loop

variable {read : PartitionReader} {chain : SmartModuleChain} {maxBytes : Nat}

/-- A log from which no `send_back_records` sends a response. -/
def Quiet (read : PartitionReader) (chain : SmartModuleChain) (maxBytes : Nat) : Prop :=
  ∀ offset r, sendBackRecords read chain maxBytes offset = some (.ok r) → r.1 = none

theorem StreamFetchHandler.sent_sendBack (hquiet : Quiet read chain maxBytes) {h h' : StreamFetchHandler}
    {offset : Int64} (hsend : h.sendBack read chain maxBytes offset = some h') : h'.sent = h.sent := by
  unfold StreamFetchHandler.sendBack at hsend
  split at hsend
  · rename_i response offset' wait hback
    have hnone : response = none := hquiet offset _ hback
    cases hsend
    simp [StreamFetchHandler.afterSend, hnone]
  · cases hsend

/-- **One turn of a quiet log sends nothing.** -/
theorem StreamFetchHandler.sent_next (hquiet : Quiet read chain maxBytes) {h h' : StreamFetchHandler}
    {e : Event} (hnext : h.next read chain maxBytes e = some h') : h'.sent = h.sent := by
  cases e with
  | consumerOffsetUpdate offset =>
    simp only [StreamFetchHandler.next] at hnext
    split_ifs at hnext
    · cases hnext; rfl
    · cases hnext; rfl
    · exact StreamFetchHandler.sent_sendBack hquiet hnext
  | partitionOffsetUpdate offset =>
    simp only [StreamFetchHandler.next] at hnext
    split at hnext
    · cases hnext; rfl
    · split_ifs at hnext
      · cases hnext; rfl
      · exact StreamFetchHandler.sent_sendBack hquiet hnext

/-- Along every run of the loop on a quiet log, the responses sent stay those sent before. -/
theorem StreamFetchHandler.sent_run (hquiet : Quiet read chain maxBytes) {h h' : StreamFetchHandler}
    {events : List Event} (hrun : Trace.run (StreamFetchHandler.next read chain maxBytes) h events = some h') :
    h'.sent = h.sent :=
  Trace.run_invariant (P := fun h' => h'.sent = h.sent)
    (fun _ _ _ hs (_ : True) hnext => (StreamFetchHandler.sent_next hquiet hnext).trans hs) rfl
    (fun _ _ => trivial) hrun

end Loop

/-! ### A batch that never goes out -/

/-- A record of twenty bytes. -/
def wideRecord : Record RecordData := ⟨default, none, ⟨List.replicate 20 0x61⟩, 0⟩

/-- A log of one batch, at offset 0, holding `wideRecord`. -/
def wideBatch : FileBatch := ⟨0, { (default : BatchHeader) with lastOffsetDelta := 0 }, [wideRecord]⟩

/-- The log as `read_records` gives it: the batch from offset 0, nothing from its end, 1. -/
def wideReader : PartitionReader := fun offset =>
  if offset = 0 then .ok ⟨[.ok wideBatch], 1⟩
  else if offset = 1 then .ok ⟨[], 1⟩
  else .error (.other "offset out of range")

/-- A chain that keeps every record as it is. -/
def keepAll : SmartModuleChain := SmartModuleChain.perRecord some

theorem keepAll_wideBatch : keepAll wideBatch = .ok ⟨[wideRecord], none⟩ := rfl

theorem writeSize_wideRecord : Encoder.writeSize [wideRecord] = some 31 := by decide

/-- From offset 0, the record survives but does not fit: nothing is sent, and the read end comes
back. -/
theorem sendBackRecords_wideReader : sendBackRecords wideReader keepAll 16 0 = some (.ok (none, 1, false)) :=
  sendBackRecords_first_oversized (rfl : wideReader 0 = .ok ⟨[.ok wideBatch], 1⟩) rfl keepAll_wideBatch
    (List.cons_ne_nil _ _) rfl writeSize_wideRecord (by decide)

theorem wideReader_quiet : Quiet wideReader keepAll 16 := by
  intro offset r hback
  by_cases h0 : offset = 0
  · subst h0
    rw [sendBackRecords_wideReader] at hback
    cases hback
    rfl
  · unfold sendBackRecords wideReader at hback
    by_cases h1 : offset = 1
    · simp [h1] at hback
      rw [← hback]
    · simp [h0, h1] at hback

/-- **The stream fetch passes over a record that survives the chain.** With a chain that keeps
every record and `max_bytes` of 16, the one record of the log survives but takes 31 bytes: the
first `send_back_records` sends nothing and the handler takes the read end, 1, as the consumer's
offset; whatever offsets the consumer and the leader report afterwards, the handler never sends a
response, so the record never reaches the consumer. -/
theorem oversizedBatch_skipped :
    keepAll wideBatch = .ok ⟨[wideRecord], none⟩ ∧
      ∃ h, StreamFetchHandler.start wideReader keepAll 16 0 = some h ∧ h.lastKnownConsumerOffset = some 1 ∧
        ∀ events h', Trace.run (StreamFetchHandler.next wideReader keepAll 16) h events = some h' → h'.sent = [] := by
  refine ⟨keepAll_wideBatch, ⟨1, some 1, []⟩, ?_, rfl, fun events h' hrun => ?_⟩
  · simp only [StreamFetchHandler.start, StreamFetchHandler.sendBack]
    rw [sendBackRecords_wideReader]
    rfl
  · exact StreamFetchHandler.sent_run wideReader_quiet hrun

end Fluvio.Spu
